import TableQuery.Execution.Shape
import TableQuery.Proofs.Access.Confinement
import TableQuery.Proofs.Fetching.Outcomes
import TableQuery.Proofs.Schema.Built
import TableQuery.Proofs.Storage.Frame

/-!
# The planned columns suffice

A plan says in advance which cells the rest of a statement will read, and the request
for its rows asks for no others. A cell that was forgotten would not be reported: the
rows would look as if it were empty. This file shows that none is forgotten. Rows that
agree on the planned columns have the same verdict of the test, the same keys in every
relation, the same identifier and the same projection, and the test is never missing a
column (`TableQuery.Statement.requiredColumns_suffice`).

An expression reads its columns atom by atom (`TableQuery.Atom.ReadsWithin`), whatever
the connectives around them, and what is read is the same for the result and for the
error: a compilation either leads to a test that reads no other cells, or it fails for
another reason than a missing column (`TableQuery.ReadsOnly`).

What the test of a relation reads is not in the expression but in what was looked up for
it. So one thing is to be said about lookups: they are made for relations of the table
at hand only, and with the key columns that the catalog declares
(`TableQuery.RelationChecks.KeyedBy`).
-/

namespace TableQuery

/-! ### Cells that are read -/

section Cells

variable {r₁ r₂ : Row}

theorem cellKeys?_congr {names : List String} (h : AgreeOn (· ∈ names) r₁ r₂) :
    cellKeys? r₁ names = cellKeys? r₂ names := by
  induction names with
  | nil => rfl
  | cons name names ih =>
    rw [cellKeys?, cellKeys?, h name (List.mem_cons_self ..),
      ih (h.mono fun other hother => List.mem_cons_of_mem _ hother)]

theorem tupleKey?_congr {names : List String} (h : AgreeOn (· ∈ names) r₁ r₂) :
    tupleKey? r₁ names = tupleKey? r₂ names := by
  rw [tupleKey?, tupleKey?, cellKeys?_congr h]

theorem anyColumn_congr {columns : List Column} {test : CellTest}
    (h : AgreeOn (· ∈ columns.map Column.name) r₁ r₂) :
    anyColumn columns test r₁ = anyColumn columns test r₂ := by
  rw [anyColumn, anyColumn, Bool.eq_iff_iff, List.any_eq_true, List.any_eq_true]
  exact exists_congr fun c => and_congr_right fun hc => by
    rw [h c.name (List.mem_map_of_mem hc)]

theorem cellOrNull_congr {name : String} (h : r₁.get? name = r₂.get? name) :
    cellOrNull r₁ name = cellOrNull r₂ name := by
  rw [cellOrNull, cellOrNull, h]

/-- A projection reads the identifier, or the columns that it names. -/
theorem Projection.apply_congr {p : Projection} {idColumn : String} (hall : p ≠ .all)
    (h : AgreeOn (· ∈ idColumn :: p.columnNames) r₁ r₂) :
    p.apply idColumn r₁ = p.apply idColumn r₂ := by
  cases p with
  | identity => exact cellOrNull_congr (h idColumn (List.mem_cons_self ..))
  | column name => exact cellOrNull_congr (h name (by simp [columnNames]))
  | columns names =>
    have hcells : names.map (fun name => (name, cellOrNull r₁ name)) =
        names.map fun name => (name, cellOrNull r₂ name) :=
      List.map_congr_left fun name hname => by
        rw [cellOrNull_congr (h name (List.mem_cons_of_mem _ hname))]
    exact congrArg (fun cells => Json.obj (Fields.ofList cells)) hcells
  | all => exact absurd rfl hall

end Cells

/-! ### Compilations that read some columns only -/

/-- The result of a compilation is a test that reads cells with the property only, or an
error that is not about a column. -/
def ReadsOnly (P : String → Prop) : Except Error RowTest → Prop
  | .ok test => ∀ r₁ r₂, AgreeOn P r₁ r₂ → test r₁ = test r₂
  | .error e => ∀ table column, e ≠ .unknownColumn table column

/-- An atom reads cells with the property only: those of the columns that a condition of
the table tests, which have to exist, and those that a relation was looked up by. -/
def Atom.ReadsWithin (scope : CompileScope) (P : String → Prop) : Atom → Prop
  | condition table columns _ => table = scope.table.name →
      ∀ name ∈ columns.getD scope.table.columnNames, name ∈ scope.table.columnNames ∧ P name
  | relation direction source target => ∀ localKeys existing,
      scope.relations.lookup (direction, source, target) = some (.known localKeys existing) →
        ∀ name ∈ localKeys, P name
  | never => True

namespace ReadsOnly

variable {P : String → Prop}

theorem const (b : Bool) : ReadsOnly P (.ok fun _ => b) :=
  fun _ _ _ => rfl

/-- Tests that are combined by a connective read what its operands read. -/
theorem map₂ {l r : Except Error RowTest} (hl : ReadsOnly P l) (hr : ReadsOnly P r)
    (op : Bool → Bool → Bool) :
    ReadsOnly P (do let l ← l; let r ← r; return fun row => op (l row) (r row)) := by
  cases l with
  | error e => exact hl
  | ok l =>
    cases r with
    | error e => exact hr
    | ok r =>
      intro r₁ r₂ h
      dsimp only
      rw [hl r₁ r₂ h, hr r₁ r₂ h]

theorem not {l : Except Error RowTest} (hl : ReadsOnly P l) :
    ReadsOnly P (do let l ← l; return fun row => !l row) := by
  cases l with
  | error e => exact hl
  | ok l =>
    intro r₁ r₂ h
    dsimp only
    rw [hl r₁ r₂ h]

end ReadsOnly

/-- The columns of a condition are found if they exist, each under its name. -/
theorem conditionColumns_eq_ok {t : Table} {columns : Option (List String)}
    (h : ∀ name ∈ columns.getD t.columnNames, name ∈ t.columnNames) :
    ∃ found, conditionColumns t columns = .ok found ∧
      ∀ c ∈ found, c.name ∈ columns.getD t.columnNames := by
  cases columns with
  | none => exact ⟨t.columns, rfl, fun c hc => List.mem_map_of_mem hc⟩
  | some names =>
    rw [Option.getD_some] at h ⊢
    induction names with
    | nil => exact ⟨[], rfl, fun c hc => absurd hc List.not_mem_nil⟩
    | cons name names ih =>
      obtain ⟨column, hcolumn⟩ := Table.exists_column? (h name (List.mem_cons_self ..))
      obtain ⟨found, hfound, hnames⟩ := ih fun other hother => h other (List.mem_cons_of_mem _ hother)
      rw [conditionColumns] at hfound ⊢
      refine ⟨column :: found, by rw [List.mapM_cons, hcolumn, hfound]; rfl, fun c hc => ?_⟩
      rcases List.mem_cons.mp hc with rfl | hc
      · rw [Table.name_of_column? hcolumn]
        exact List.mem_cons_self ..
      · exact List.mem_cons_of_mem _ (hnames c hc)

/-! ### Literals -/

section Literals

variable {scope : CompileScope} {name : String} {key : Option String} {e : Error}

theorem variableKeys_ne_unknownColumn {values : List Json}
    (h : variableKeys name values key = .error e) (table column : String) :
    e ≠ .unknownColumn table column := by
  rcases except_bind_eq_error.mp h with haccess | ⟨accessed, -, h⟩
  · obtain ⟨element, -, helement⟩ := exists_of_mapM_eq_error haccess
    unfold accessKey at helement
    split at helement <;> cases helement <;> simp
  · cases h

theorem require_ne_unknownColumn {context : Context} (h : context.require name = .error e)
    (table column : String) : e ≠ .unknownColumn table column := by
  rw [Context.require] at h
  split at h <;> cases h
  simp

/-- A reference to a variable fails for reasons of variables. -/
theorem compileVariable_ne_unknownColumn {mode : VariableMode}
    (h : compileVariable scope name key mode = .error e) (table column : String) :
    e ≠ .unknownColumn table column := by
  cases mode with
  | one =>
    rw [compileVariable] at h
    split at h
    · cases h
      simp
    · rcases except_bind_eq_error.mp h with hkeys | ⟨keys, -, h⟩
      · exact variableKeys_ne_unknownColumn hkeys table column
      · cases h
  | any | all =>
    rcases except_bind_eq_error.mp h with hv | ⟨v, -, h⟩
    · exact require_ne_unknownColumn hv table column
    rcases except_bind_eq_error.mp h with hkeys | ⟨keys, -, h⟩
    · exact variableKeys_ne_unknownColumn hkeys table column
    · cases h

theorem readsOnly_anyColumn {P : String → Prop} {columns : List Column}
    (h : ∀ c ∈ columns, P c.name) (test : CellTest) :
    ReadsOnly P (.ok (anyColumn columns test)) := by
  intro r₁ r₂ hagree
  refine anyColumn_congr (hagree.mono fun name hname => ?_)
  obtain ⟨c, hc, rfl⟩ := List.mem_map.mp hname
  exact h c hc

/-- A condition on some columns reads these columns. -/
theorem readsOnly_compileLiteral {P : String → Prop} {columns : List Column}
    (h : ∀ c ∈ columns, P c.name) (literal : Literal) :
    ReadsOnly P (compileLiteral scope columns literal) := by
  cases literal with
  | dateRange lower upper =>
    rw [compileLiteral]
    split
    · exact .const false
    · exact .const false
    · exact readsOnly_anyColumn h _
  | variableRef name key mode =>
    rw [compileLiteral]
    cases hv : compileVariable scope name key mode with
    | error e => exact compileVariable_ne_unknownColumn hv
    | ok test =>
      cases test with
      | none => exact .const _
      | some test => exact readsOnly_anyColumn h test
  | text | empty | notEmpty | list => exact readsOnly_anyColumn h _

end Literals

/-! ### Expressions -/

section Expressions

variable {scope : CompileScope} {P : String → Prop}

theorem readsOnly_compileAtom {a : Atom} (h : a.ReadsWithin scope P) :
    ReadsOnly P (compileAtom scope a) := by
  cases a with
  | condition table columns literal =>
    by_cases htable : table = scope.table.name
    · subst htable
      have hcolumns := h rfl
      obtain ⟨found, hfound, hnames⟩ := conditionColumns_eq_ok fun name hname =>
        (hcolumns name hname).1
      rw [compileAtom, bne_self_eq_false, if_neg Bool.false_ne_true, hfound]
      exact readsOnly_compileLiteral (fun c hc => (hcolumns c.name (hnames c hc)).2) literal
    · rw [compileAtom, if_pos (bne_iff_ne.mpr htable)]
      exact .const false
  | relation direction source target =>
    intro r₁ r₂ hagree
    dsimp only
    cases hlookup : scope.relations.lookup (direction, source, target) with
    | none => rfl
    | some check =>
      cases check with
      | undeclared => rfl
      | known localKeys existing =>
        have hkeys := tupleKey?_congr (hagree.mono (h localKeys existing hlookup))
        rw [Option.any_some, Option.any_some, RelationCheck.accepts, RelationCheck.accepts, hkeys]
  | never => exact .const false

/-- **An expression reads what its atoms read.** -/
theorem readsOnly_compile {e : Expression} (h : ∀ a ∈ e.atoms, a.ReadsWithin scope P) :
    ReadsOnly P (compile scope e) := by
  induction e with
  | and l r ihl ihr =>
    exact .map₂ (ihl fun a ha => h a (List.mem_append_left _ ha))
      (ihr fun a ha => h a (List.mem_append_right _ ha)) and
  | or l r ihl ihr =>
    exact .map₂ (ihl fun a ha => h a (List.mem_append_left _ ha))
      (ihr fun a ha => h a (List.mem_append_right _ ha)) or
  | not e ih => exact .not (ih h)
  | atom a => exact readsOnly_compileAtom (h a (List.mem_singleton_self a))

end Expressions

/-! ### What has been looked up -/

/-- The lookups are of relations that start at the table, each by the key columns that
the catalog declares for it. -/
def RelationChecks.KeyedBy (checks : RelationChecks) (catalog : Catalog) (table : String) :
    Prop :=
  ∀ direction source target localKeys existing,
    checks.lookup (direction, source, target) = some (.known localKeys existing) →
      source = table ∧ ∃ path, catalog.path? direction source target = some path ∧
        path.localKeys = localKeys

section Lookups

variable {scope : Scope} {table : String} {rows : List Row} {fetch : FetchCall → FetchAnswer}

theorem path?_of_resolveRelation {direction : Direction} {source target : String}
    {localKeys existing : List String}
    (h : (resolveRelation scope rows direction source target).outcome fetch =
      .ok (.known localKeys existing)) :
    ∃ path, scope.catalog.path? direction source target = some path ∧
      path.localKeys = localKeys := by
  rw [resolveRelation] at h
  split at h
  · cases h
  · rename_i path hpath
    obtain ⟨_, -, h⟩ := Fetching.outcome_lift_bind_eq_ok.mp h
    obtain ⟨_, -, h⟩ := Fetching.outcome_lift_bind_eq_ok.mp h
    refine ⟨path, hpath, ?_⟩
    dsimp only at h
    split at h
    · cases h
      rfl
    · obtain ⟨remote, -, h⟩ := Fetching.outcome_bind_eq_ok.mp h
      cases h
      rfl

/-- **Lookups are keyed by the catalog**, whatever rows they are made for and whatever
the source answers. -/
theorem keyedBy_of_resolveRelations {atoms : List Atom} {checks final : RelationChecks}
    (hchecks : checks.KeyedBy scope.catalog table)
    (h : (resolveRelations scope table rows atoms checks).outcome fetch = .ok final) :
    final.KeyedBy scope.catalog table := by
  induction atoms generalizing checks with
  | nil =>
    obtain rfl := Except.ok.inj h
    exact hchecks
  | cons a rest ih =>
    cases a with
    | relation direction source target =>
      rw [resolveRelations] at h
      split at h
      · rename_i hnew
        obtain ⟨check, hcheck, h⟩ := Fetching.outcome_bind_eq_ok.mp h
        refine ih ?_ h
        intro direction' source' target' localKeys existing hlookup
        rcases RelationChecks.of_lookup_append hlookup with hold | ⟨hkey, rfl⟩
        · exact hchecks _ _ _ _ _ hold
        · cases hkey
          exact ⟨beq_iff_eq.mp (Bool.and_eq_true_iff.mp hnew).1, path?_of_resolveRelation hcheck⟩
      · exact ih hchecks h
    | condition | never => exact ih hchecks h

end Lookups

/-! ### Planned columns -/

namespace Statement

variable {s : Statement} {catalog : Catalog} {t : Table} {columns : RequiredColumns}

theorem names_eq_of_needsAllColumns (h : s.requiredColumns catalog t = .ok columns)
    (hall : s.needsAllColumns t = true) : columns.names = t.columnNames := by
  obtain ⟨-, rfl⟩ := requiredColumns_eq_ok h
  exact List.filter_eq_self.mpr fun name _ => by rw [hall, Bool.true_or]

/-- The key columns of a relation of the table are columns that the statement names. -/
theorem mem_namedColumns_of_relation {direction : Direction} {target : String}
    {path : RelationPath} (h : .relation direction t.name target ∈ s.expression.atoms)
    (hpath : catalog.path? direction t.name target = some path) {name : String}
    (hname : name ∈ path.localKeys) : name ∈ s.namedColumns catalog t := by
  have hon : .relation direction t.name target ∈ s.atomsOn t.name :=
    List.mem_filter.mpr ⟨h, by simp [Atom.table?]⟩
  refine List.mem_append_right _ (List.mem_flatMap.mpr ⟨_, hon, ?_⟩)
  rw [Atom.keyColumns, hpath]
  exact hname

/-- The identifier and the projected columns are columns that the statement names. -/
theorem mem_namedColumns_of_projection {name : String}
    (h : name ∈ t.idColumn :: s.projection.columnNames) : name ∈ s.namedColumns catalog t :=
  List.mem_append_left _ (List.mem_append_left _ h)

/-- What a condition of the table tests is planned, all columns where it names none. -/
theorem mem_names_of_condition (h : s.requiredColumns catalog t = .ok columns)
    {names : Option (List String)} {literal : Literal}
    (hatom : .condition t.name names literal ∈ s.expression.atoms) {name : String}
    (hname : name ∈ names.getD t.columnNames) : name ∈ columns.names := by
  cases names with
  | some names =>
    exact mem_names_of_mem_namedColumns h (mem_namedColumns_of_condition hatom hname)
  | none =>
    have hon : .condition t.name none literal ∈ s.atomsOn t.name :=
      List.mem_filter.mpr ⟨hatom, by simp [Atom.table?]⟩
    have hall : s.needsAllColumns t = true := by
      rw [needsAllColumns, Bool.or_eq_true, List.any_eq_true]
      exact Or.inr ⟨_, hon, rfl⟩
    rw [names_eq_of_needsAllColumns h hall]
    exact hname

/-- The expression of a planned statement reads planned columns, and the columns that its
relations were looked up by. -/
theorem readsOnly_of_requiredColumns (h : s.requiredColumns catalog t = .ok columns)
    (scope : CompileScope) (hscope : scope.table = t) {P : String → Prop}
    (hplanned : ∀ name ∈ columns.names, P name)
    (hrelations : ∀ direction source target localKeys existing,
      .relation direction source target ∈ s.expression.atoms →
        scope.relations.lookup (direction, source, target) = some (.known localKeys existing) →
          ∀ name ∈ localKeys, P name) :
    ReadsOnly P (compile scope s.expression) := by
  subst hscope
  refine readsOnly_compile fun a ha => ?_
  cases a with
  | condition table names literal =>
    rintro rfl name hname
    have hmem := mem_names_of_condition h ha hname
    exact ⟨mem_columnNames_of_mem_names h hmem, hplanned name hmem⟩
  | relation direction source target =>
    exact fun localKeys existing => hrelations direction source target localKeys existing ha
  | never => trivial

/-- **The planned columns suffice.** For a statement whose columns have been planned, and
rows that agree on these columns:

* the test of the expression gives them one verdict, under all variables and lookups, and
  where there is no test, that is not for want of a column;
* they have one key in every relation of the table, one identifier and one projection,
  and if whole rows are projected, they agree on all columns of the table.

The lookups that a test is compiled with are those of the catalog for the table; other
ones are never made. -/
theorem requiredColumns_suffice (catalog : Catalog) (t : Table) (s : Statement)
    (columns : RequiredColumns) (h : s.requiredColumns catalog t = .ok columns) :
    (∀ context frame relations emptyMeansAll,
      let compiled := compile ⟨t, context, frame, relations, emptyMeansAll⟩ s.expression
      (∀ table column, compiled ≠ .error (.unknownColumn table column)) ∧
        ∀ test, compiled = .ok test → relations.KeyedBy catalog t.name →
          ∀ r₁ r₂, AgreeOn (· ∈ columns.names) r₁ r₂ → test r₁ = test r₂) ∧
    (∀ r₁ r₂, AgreeOn (· ∈ columns.names) r₁ r₂ →
      (∀ direction target path, .relation direction t.name target ∈ s.expression.atoms →
        catalog.path? direction t.name target = some path →
          tupleKey? r₁ path.localKeys = tupleKey? r₂ path.localKeys) ∧
      cellOrNull r₁ t.idColumn = cellOrNull r₂ t.idColumn ∧
      (s.projection ≠ .all →
        s.projection.apply t.idColumn r₁ = s.projection.apply t.idColumn r₂) ∧
      (s.projection = .all →
        Store.projectRow t.columnNames r₁ = Store.projectRow t.columnNames r₂)) ∧
    ∀ whitelist allowed rows atoms fetch relations,
      (resolveRelations ⟨catalog, whitelist, allowed⟩ t.name rows atoms []).outcome fetch =
        .ok relations → relations.KeyedBy catalog t.name := by
  refine ⟨fun context frame relations emptyMeansAll => ⟨fun table column hcompile => ?_,
    fun test hcompile hkeyed r₁ r₂ hagree => ?_⟩, fun r₁ r₂ hagree => ⟨?_, ?_, ?_, ?_⟩, ?_⟩
  · -- which cells the test would read does not matter for the error
    have hreads := readsOnly_of_requiredColumns h
      ⟨t, context, frame, relations, emptyMeansAll⟩ (P := fun _ => True) rfl
      (fun _ _ => trivial) (fun _ _ _ _ _ _ _ _ _ => trivial)
    rw [hcompile] at hreads
    exact hreads table column rfl
  · have hreads := readsOnly_of_requiredColumns h
      ⟨t, context, frame, relations, emptyMeansAll⟩ (P := (· ∈ columns.names)) rfl
      (fun _ hname => hname) ?_
    · rw [hcompile] at hreads
      exact hreads r₁ r₂ hagree
    · intro direction source target localKeys existing hatom hlookup name hname
      obtain ⟨rfl, path, hpath, rfl⟩ := hkeyed _ _ _ _ _ hlookup
      exact mem_names_of_mem_namedColumns h (mem_namedColumns_of_relation hatom hpath hname)
  · intro direction target path hatom hpath
    exact tupleKey?_congr (hagree.mono fun name hname =>
      mem_names_of_mem_namedColumns h (mem_namedColumns_of_relation hatom hpath hname))
  · exact cellOrNull_congr (hagree _ (mem_names_of_mem_namedColumns h
      (mem_namedColumns_of_projection (List.mem_cons_self ..))))
  · intro hall
    exact Projection.apply_congr hall (hagree.mono fun name hname =>
      mem_names_of_mem_namedColumns h (mem_namedColumns_of_projection hname))
  · intro hall
    have hneeds : s.needsAllColumns t = true := by
      rw [needsAllColumns, hall]
      rfl
    rw [names_eq_of_needsAllColumns h hneeds] at hagree
    exact Store.projectRow_congr hagree
  · intro whitelist allowed rows atoms fetch relations hlookups
    let scope : Scope := ⟨catalog, whitelist, allowed⟩
    have hnone : RelationChecks.KeyedBy [] scope.catalog t.name :=
      fun _ _ _ _ _ hlookup => by cases hlookup
    exact keyedBy_of_resolveRelations hnone hlookups

/-- The titles of the posts that have a word in them and an author who is known. -/
def signedPosts : Statement where
  expression := .and
    (.atom (.condition "posts" (some ["title"]) (.text "lean" false .contains)))
    (.atom (.relation .forward "posts" "users"))
  projection := .columns ["title"]

/-- A post that has been published. -/
def publishedPost : Row :=
  [("author_id", .ofNat 3), ("created_at", .str "2024-02-29"), ("id", .ofNat 7),
    ("title", .str "On Lean")]

/-- The same post before, in cells that are not asked for. -/
def draftPost : Row :=
  [("author_id", .ofNat 3), ("id", .ofNat 7), ("note", .bool true), ("title", .str "On Lean")]

/-- The two posts differ in cells that are not planned, and nothing tells them apart. -/
theorem requiredColumns_suffice_signedPosts :
    let posts := Catalog.blog.tables[1]
    let columns : RequiredColumns := ⟨["id", "title", "author_id"], false⟩
    let users : Store := { tables := [("users", [[("id", .ofNat 3), ("name", .str "Ada")]])] }
    signedPosts.requiredColumns .blog posts = .ok columns ∧
      AgreeOn (· ∈ columns.names) publishedPost draftPost ∧
      ∃ relations test,
        (resolveRelations ⟨.blog, ⟨[("users", .all)]⟩, none⟩ posts.name [publishedPost]
          signedPosts.expression.atoms []).outcome users.fetch = .ok relations ∧
        compile ⟨posts, [], none, relations, false⟩ signedPosts.expression = .ok test ∧
        test publishedPost = true ∧ test publishedPost = test draftPost ∧
        tupleKey? publishedPost ["author_id"] = tupleKey? draftPost ["author_id"] ∧
        signedPosts.projection.apply posts.idColumn publishedPost =
          signedPosts.projection.apply posts.idColumn draftPost := by
  intro posts columns users
  have hplan : signedPosts.requiredColumns .blog posts = .ok columns := by decide +kernel
  have hagree : AgreeOn (· ∈ columns.names) publishedPost draftPost := by
    intro name hname
    simp only [columns, List.mem_cons, List.not_mem_nil, or_false] at hname
    rcases hname with rfl | rfl | rfl <;> rfl
  let relations : RelationChecks :=
    [((.forward, "posts", "users"), .known ["author_id"] ["3"])]
  have hrelations : (resolveRelations ⟨.blog, ⟨[("users", .all)]⟩, none⟩ posts.name
      [publishedPost] signedPosts.expression.atoms []).outcome users.fetch = .ok relations := by
    decide +kernel
  obtain ⟨test, htest, haccepts⟩ : ∃ test,
      compile ⟨posts, [], none, relations, false⟩ signedPosts.expression = .ok test ∧
        test publishedPost = true := ⟨_, rfl, by decide +kernel⟩
  obtain ⟨htests, hrows, hkeyed⟩ := requiredColumns_suffice .blog posts signedPosts columns hplan
  obtain ⟨hkeys, -, hprojection, -⟩ := hrows _ _ hagree
  have hpath : Catalog.blog.path? .forward posts.name "users" =
      some ⟨["author_id"], "users", ["id"]⟩ := by decide +kernel
  refine ⟨hplan, hagree, relations, test, hrelations, htest, haccepts, ?_, ?_, ?_⟩
  · exact (htests [] none relations false).2 test htest (hkeyed _ _ _ _ _ _ hrelations) _ _ hagree
  · exact hkeys .forward "users" _ (by simp [signedPosts, Expression.atoms, posts, Catalog.blog])
      hpath
  · exact hprojection (by simp [signedPosts])

end Statement

end TableQuery
