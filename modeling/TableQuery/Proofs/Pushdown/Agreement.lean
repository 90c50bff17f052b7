import TableQuery.Proofs.Pushdown.Rows

/-!
# Where a pushed filter is the row test

Pushdown in general promises in one direction only. On texts and dates it does better:
the filter gives every row the verdict of the row test, and no search in it is
unsupported (`TableQuery.StorageFilter.eval_eq_holds`). Numbers and booleans are out of
it, because a store compares keys and the row test compares readings.

Two things are asked of the row (`TableQuery.ColumnType.Simple`). A store searches
strings only, so a column of strings has to hold strings. And the row test looks into
arrays while a store reads the whole cell, so a column of dates must not hold an array.
A cell that is null or missing is no exception: both sides turn it away.

Each kind of condition is settled for one cell. The connectives then follow from what
merging does to two verdicts, whatever was flattened on the way.
-/

namespace TableQuery

/-! ### What the agreement is about -/

/-- The atom asks for a text or a range of dates, in columns of strings and of dates. -/
def Atom.OnTextsAndDates (t : Table) : Atom → Prop
  | .condition _ columns (.text ..) | .condition _ columns (.dateRange ..) =>
    ∀ name ∈ columns.getD t.columnNames, ∀ column, t.column? name = some column →
      column.type = .string ∨ column.type = .date
  | _ => False

/-- A cell of a type that a store sees as the row test does. -/
def ColumnType.Simple (type : ColumnType) (cell : Json) : Prop :=
  match type with
  | .string => cell = .null ∨ ∃ s, cell = .str s
  | .date => ∀ items, cell ≠ .arr items
  | _ => True

/-- The cells that the expression names are simple. -/
def Table.SimpleRow (t : Table) (e : Expression) (row : Row) : Prop :=
  ∀ a ∈ e.atoms, ∀ name ∈ a.columnNames, ∀ column cell, t.column? name = some column →
    row.get? name = some cell → column.type.Simple cell

theorem Table.SimpleRow.mono {t : Table} {e e' : Expression} {row : Row}
    (h : t.SimpleRow e row) (hatoms : ∀ a ∈ e'.atoms, a ∈ e.atoms) : t.SimpleRow e' row :=
  fun a ha => h a (hatoms a ha)

/-! ### The row test on simple cells -/

namespace CellTest

/-- A string is its only element, and it is searched as it stands. -/
theorem accepts_text_string {t : TextTest} {cell : Option Json}
    (h : ∀ value, cell = some value → ColumnType.string.Simple value) :
    (text t).accepts .string cell =
      (cell.bind Json.str?).any fun s =>
        t.mode.findsFolded (!t.caseSensitive) t.text.toList s.toList := by
  cases cell with
  | none => rfl
  | some value =>
    rcases h value rfl with rfl | ⟨s, rfl⟩
    · rfl
    · obtain ⟨needle, caseSensitive, mode⟩ := t
      cases mode <;> exact Bool.or_false _

/-- A value that is no array is its only element. -/
theorem elements_of_simple_date {value : Json} (h : ColumnType.date.Simple value) :
    value.elements = [value] := by
  cases value with
  | arr items => exact absurd rfl (h items)
  | _ => rfl

/-- A test that asks something of the date in a cell need not look for null before. -/
theorem any_date? {cell : Option Json} {test : Json → Bool} {p : Int → Bool}
    (h : ∀ value, cell = some value → value.isNull = false → test value = value.date?.any p) :
    (cell.filter fun v => !v.isNull).any test = (cell.bind Json.date?).any p := by
  cases cell with
  | none => rfl
  | some value =>
    cases hnull : value.isNull with
    | true =>
      cases value with
      | null => rfl
      | _ => cases hnull
    | false =>
      rw [Option.filter_some, hnull, Bool.not_false, if_pos rfl]
      exact h value rfl hnull

/-- A range of dates is asked of the one date that the cell is read as. -/
theorem accepts_range_date {lower upper : Option Int} {cell : Option Json}
    (h : ∀ value, cell = some value → ColumnType.date.Simple value) :
    (range lower upper).accepts .date cell =
      (cell.bind Json.date?).any (withinBounds lower upper) := by
  refine any_date? fun value hvalue _ => ?_
  rw [acceptsValue, elements_of_simple_date (h value hvalue), List.any_cons, List.any_nil,
    Bool.or_false]

/-- A text that reads as a date is asked of a cell as the range of its day. -/
theorem accepts_text_date {needle : String} {caseSensitive : Bool} {lower upper : Int}
    (hlower : Text.date? needle = some lower) (hupper : Text.upperDate? needle = some upper)
    {cell : Option Json} (h : ∀ value, cell = some value → ColumnType.date.Simple value) :
    (text ⟨needle, caseSensitive, .contains⟩).accepts .date cell =
      (cell.bind Json.date?).any (withinBounds (some lower) (some upper)) := by
  have hday : (TextTest.mk needle caseSensitive .contains).day? = some (lower, upper) := by
    rw [TextTest.day?, hlower, hupper]
    rfl
  refine any_date? fun value hvalue hnull => ?_
  have hpresent : (value.elements.filter fun v => !v.isNull) = [value] := by
    rw [elements_of_simple_date (h value hvalue)]
    exact List.filter_cons_of_pos (by rw [hnull, Bool.not_false])
  have hread : (TextTest.mk needle caseSensitive .contains).accepts .date value =
      value.date?.any (withinBounds (some lower) (some upper)) := by
    change TextTest.both _ (TextTest.day? _) value.date? = _
    rw [hday]
    cases value.date? <;> rfl
  rw [acceptsValue, hpresent, List.any_cons, List.any_nil, Bool.or_false]
  exact hread

end CellTest

/-! ### The filter on simple cells -/

namespace StorageFilter

variable {row : Row} {column : Column}

theorem eval_range (name : String) (lower upper : Option Int) :
    (range name lower upper).eval row =
      .holds (((row.get? name).bind Json.date?).any (withinBounds lower upper)) := by
  rw [eval]
  cases (row.get? name).bind Json.date? <;> rfl

theorem eval_search {mode : MatchMode} {name needle : String} {ignoreCase : Bool}
    (h : ∀ cell, row.get? name = some cell → ColumnType.string.Simple cell) :
    (search mode name needle ignoreCase).eval row =
      .holds (((row.get? name).bind Json.str?).any fun s =>
        mode.findsFolded ignoreCase needle.toList s.toList) := by
  rw [eval]
  cases hcell : row.get? name with
  | none => rfl
  | some cell => rcases h cell hcell with rfl | ⟨s, rfl⟩ <;> rfl

/-- **A pushed condition is the row test** where its cell is simple. -/
theorem eval_eq_holds_of_condition {literal : Literal} {f : StorageFilter}
    (h : ofCondition? column literal = some f)
    (htype : column.type = .string ∨ column.type = .date) (scope : CompileScope) :
    ∃ test, compileLiteral scope [column] literal = .ok test ∧
      ∀ row : Row, (∀ cell, row.get? column.name = some cell → column.type.Simple cell) →
        f.eval row = .holds (test row) := by
  obtain ⟨name, type, optional⟩ := column
  cases literal with
  | text needle caseSensitive mode =>
    refine ⟨_, rfl, fun row hrow => ?_⟩
    rw [anyColumn, List.any_cons, List.any_nil, Bool.or_false]
    rcases htype with rfl | rfl
    · obtain rfl := Option.some.inj h
      rw [eval_search hrow, CellTest.accepts_text_string hrow]
    · -- only a text without wildcards is pushed down as a date
      cases mode with
      | contains =>
        obtain ⟨lower, hlower, h⟩ := Option.bind_eq_some_iff.mp h
        obtain ⟨upper, hupper, h⟩ := Option.bind_eq_some_iff.mp h
        obtain rfl := Option.some.inj h
        rw [eval_range, CellTest.accepts_text_date hlower hupper hrow]
      | startsWith | endsWith => cases h
  | dateRange lower upper =>
    rcases htype with rfl | rfl
    · cases h
    · obtain ⟨lo, hlo, h⟩ := Option.bind_eq_some_iff.mp h
      obtain ⟨up, hup, h⟩ := Option.bind_eq_some_iff.mp h
      obtain rfl := Option.some.inj h
      refine ⟨_, compileLiteral_dateRange (readBound?_eq_some hlo) (readBound?_eq_some hup) ..,
        fun row hrow => ?_⟩
      rw [eval_range, anyColumn, List.any_cons, List.any_nil, Bool.or_false,
        CellTest.accepts_range_date hrow]
  | empty | notEmpty | variableRef | list => cases h

/-! ### Expressions -/

/-- **On texts and dates a pushed filter is the row test.** An expression whose atoms ask
for texts and ranges of dates, in columns of strings and dates, compiles to a test if it
is pushed down, and to every row whose cells in those columns are simple the filter gives
exactly the verdict of that test. -/
theorem eval_eq_holds (t : Table) (e : Expression) (f : StorageFilter) (context : Context)
    (frame : Option LoopFrame) (relations : RelationChecks) (emptyMeansAll : Bool)
    (hatoms : ∀ a ∈ e.atoms, a.OnTextsAndDates t) (hf : ofExpression? t e = some f) :
    ∃ test, compile ⟨t, context, frame, relations, emptyMeansAll⟩ e = .ok test ∧
      ∀ row, t.SimpleRow e row → f.eval row = .holds (test row) := by
  induction e generalizing f with
  | and l r ihl ihr =>
    obtain ⟨fl, hfl, hf⟩ := Option.bind_eq_some_iff.mp hf
    obtain ⟨fr, hfr, hf⟩ := Option.bind_eq_some_iff.mp hf
    obtain rfl := Option.some.inj hf
    obtain ⟨testl, hl, hevall⟩ := ihl fl (fun a ha => hatoms a (List.mem_append_left _ ha)) hfl
    obtain ⟨testr, hr, hevalr⟩ := ihr fr (fun a ha => hatoms a (List.mem_append_right _ ha)) hfr
    refine ⟨fun row => testl row && testr row, by rw [compile, hl, hr]; rfl, fun row hrow => ?_⟩
    rw [eval_mergeAnd, hevall row (hrow.mono fun a ha => List.mem_append_left _ ha),
      hevalr row (hrow.mono fun a ha => List.mem_append_right _ ha), Verdict.andThen_holds]
  | or l r ihl ihr =>
    obtain ⟨fl, hfl, hf⟩ := Option.bind_eq_some_iff.mp hf
    obtain ⟨fr, hfr, hf⟩ := Option.bind_eq_some_iff.mp hf
    obtain rfl := Option.some.inj hf
    obtain ⟨testl, hl, hevall⟩ := ihl fl (fun a ha => hatoms a (List.mem_append_left _ ha)) hfl
    obtain ⟨testr, hr, hevalr⟩ := ihr fr (fun a ha => hatoms a (List.mem_append_right _ ha)) hfr
    refine ⟨fun row => testl row || testr row, by rw [compile, hl, hr]; rfl, fun row hrow => ?_⟩
    rw [eval_mergeOr, hevall row (hrow.mono fun a ha => List.mem_append_left _ ha),
      hevalr row (hrow.mono fun a ha => List.mem_append_right _ ha), Verdict.orElse_holds]
  | not e => cases hf
  | atom a =>
    obtain ⟨name, literal, column, rfl, hcolumn, hf⟩ := ofAtom?_eq_some hf
    have hname := Table.name_of_column? hcolumn
    have hatom := hatoms _ (List.mem_singleton_self _)
    have htype : column.type = .string ∨ column.type = .date := by
      cases literal with
      | text | dateRange => exact hatom name (List.mem_singleton_self _) column hcolumn
      | empty | notEmpty | variableRef | list => exact hatom.elim
    let scope : CompileScope := ⟨t, context, frame, relations, emptyMeansAll⟩
    obtain ⟨test, htest, heval⟩ := eval_eq_holds_of_condition hf htype scope
    have hcompile : compileAtom scope (.condition t.name (some [name]) literal) =
        compileLiteral scope [column] literal := compileAtom_condition hcolumn literal
    refine ⟨test, hcompile.trans htest, fun row hrow => heval row fun cell hcell => ?_⟩
    exact hrow _ (List.mem_singleton_self _) name (List.mem_singleton_self _) column cell hcolumn
      (hname ▸ hcell)

/-- The posts that have a word in their title, or begin with another one, and were written
in a span of days or on a leap day. -/
def datedPosts : Expression :=
  .and
    (.or (.atom (.condition "posts" (some ["title"]) (.text "lean" false .contains)))
      (.atom (.condition "posts" (some ["title"]) (.text "Notes" true .startsWith))))
    (.or (.atom (.condition "posts" (some ["created_at"])
        (.dateRange (some "2024-03-01") (some "2024-03-31"))))
      (.atom (.condition "posts" (some ["created_at"]) (.text "2024-02-29" false .contains))))

/-- A post that passes, by its word and the leap day. -/
def leapDayPost : Row :=
  [("created_at", .str "2024-02-29T23:59:59.999Z"), ("id", .ofNat 7), ("title", .str "On LEAN")]

/-- The filter of the posts finds what their test finds. -/
theorem eval_eq_holds_datedPosts :
    let posts := Catalog.blog.tables[1]
    ∃ f test, ofExpression? posts datedPosts = some f ∧
      compile ⟨posts, [], none, [], false⟩ datedPosts = .ok test ∧
      posts.SimpleRow datedPosts leapDayPost ∧
      f.eval leapDayPost = .holds (test leapDayPost) ∧ f.eval leapDayPost = .holds true := by
  intro posts
  obtain ⟨f, hf, hholds⟩ : ∃ f, ofExpression? posts datedPosts = some f ∧
      f.eval leapDayPost = .holds true := ⟨_, rfl, by decide +kernel⟩
  have hatoms : ∀ a ∈ datedPosts.atoms, a.OnTextsAndDates posts := by
    simp [datedPosts, Expression.atoms, Atom.OnTextsAndDates, posts, Catalog.blog, Table.column?]
  have hrow : posts.SimpleRow datedPosts leapDayPost := by
    intro a ha name hname column cell hcolumn hcell
    have hnames : name ∈ datedPosts.atoms.flatMap Atom.columnNames :=
      List.mem_flatMap.mpr ⟨a, ha, hname⟩
    have hcases : name = "title" ∨ name = "created_at" := by
      simpa [datedPosts, Expression.atoms, Atom.columnNames] using hnames
    rcases hcases with rfl | rfl
    · obtain rfl : ⟨"title", .string, false⟩ = column := Option.some.inj hcolumn
      exact Or.inr ⟨"On LEAN", (Option.some.inj hcell).symm⟩
    · obtain rfl : ⟨"created_at", .date, true⟩ = column := Option.some.inj hcolumn
      obtain rfl : .str "2024-02-29T23:59:59.999Z" = cell := Option.some.inj hcell
      exact fun items h => by cases h
  obtain ⟨test, htest, heval⟩ := eval_eq_holds posts datedPosts f [] none [] false hatoms hf
  exact ⟨f, test, hf, htest, hrow, heval leapDayPost hrow, hholds⟩

end StorageFilter

end TableQuery
