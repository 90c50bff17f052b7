import TableQuery.Proofs.Batch.References

/-!
# A join is a nested loop

A join fetches its rows once and looks its relations up once, and tests the rows anew
for each element of its variable. It could also be run as a loop: for each element run
the statement by itself, with a request of its own, and attach the result. What a
reference to the element of the loop means is then to be said without the loop, by a
variable that holds the element and nothing else (`TableQuery.Statement.unrolled`). The
two come to the same (`TableQuery.Executor.outcome_join`).

There are two sides to it. What is planned, asked of the store and looked up does not
depend on what the variables hold, and not even on which variables are referred to, so
one round of requests serves all elements (`TableQuery.Executor.candidates_unrolled`).
And where the test of the expression can be compiled inside the loop, it can be compiled
outside of it and is the same test (`TableQuery.compile_unrolled`).
-/

namespace TableQuery

/-! ### Literals replaced -/

/-- The atom with its literal replaced. -/
def Atom.mapLiteral (f : Literal → Literal) : Atom → Atom
  | condition table columns literal => condition table columns (f literal)
  | a => a

/-- The expression with all its literals replaced. -/
def Expression.mapLiterals (f : Literal → Literal) : Expression → Expression
  | and l r => and (l.mapLiterals f) (r.mapLiterals f)
  | or l r => or (l.mapLiterals f) (r.mapLiterals f)
  | not e => not (e.mapLiterals f)
  | atom a => atom (a.mapLiteral f)

/-- A reference to the element of the loop over `name` becomes one to some value of
`other`. -/
def Literal.unrolled (name other : String) : Literal → Literal
  | variableRef n key .one => if n = name then variableRef other key .any else variableRef n key .one
  | literal => literal

/-- **The body of a join** over `name`, as a statement by itself: it is no join, and
what it says of the element of the loop it says of the value of `other`. -/
def Statement.unrolled (s : Statement) (name other : String) : Statement :=
  { s with
    name := none
    targetKey := none
    expression := s.expression.mapLiterals (Literal.unrolled name other) }

/-! ### What is asked of the store -/

section Planning

variable {f : Literal → Literal}

theorem Expression.atoms_mapLiterals (e : Expression) :
    (e.mapLiterals f).atoms = e.atoms.map (Atom.mapLiteral f) := by
  induction e with
  | and l r ihl ihr | or l r ihl ihr =>
    simp only [mapLiterals, atoms, ihl, ihr, List.map_append]
  | not e ih => exact ih
  | atom a => rfl

namespace Atom

theorem table?_mapLiteral (a : Atom) : (a.mapLiteral f).table? = a.table? := by
  cases a <;> rfl

theorem columnNames_mapLiteral (a : Atom) : (a.mapLiteral f).columnNames = a.columnNames := by
  cases a with
  | condition table columns literal => cases columns <;> rfl
  | relation | never => rfl

theorem keyColumns_mapLiteral (catalog : Catalog) (a : Atom) :
    (a.mapLiteral f).keyColumns catalog = a.keyColumns catalog := by
  cases a <;> rfl

theorem testsAllColumns_mapLiteral (a : Atom) :
    (a.mapLiteral f).testsAllColumns = a.testsAllColumns := by
  cases a with
  | condition table columns literal => cases columns <;> rfl
  | relation | never => rfl

end Atom

theorem Expression.firstTable?_mapLiterals (e : Expression) :
    (e.mapLiterals f).firstTable? = e.firstTable? := by
  rw [firstTable?, firstTable?, atoms_mapLiterals, List.findSome?_map]
  congr 1
  funext a
  exact a.table?_mapLiteral

theorem resolveRelations_mapLiteral {scope : Scope} {table : String} {rows : List Row}
    (atoms : List Atom) (checks : RelationChecks) :
    resolveRelations scope table rows (atoms.map (Atom.mapLiteral f)) checks =
      resolveRelations scope table rows atoms checks := by
  induction atoms generalizing checks with
  | nil => rfl
  | cons a rest ih =>
    cases a with
    | relation direction source target =>
      simp only [List.map_cons, Atom.mapLiteral, resolveRelations, ih]
    | condition | never => exact ih checks

/-- The filter does not change where literals are replaced by such that say as much to the
store. -/
theorem StorageFilter.ofExpression?_mapLiterals (t : Table)
    (hf : ∀ column literal, ofCondition? column (f literal) = ofCondition? column literal)
    (e : Expression) : ofExpression? t (e.mapLiterals f) = ofExpression? t e := by
  induction e with
  | and l r ihl ihr | or l r ihl ihr =>
    rw [Expression.mapLiterals, ofExpression?, ofExpression?, ihl, ihr]
  | not e => rfl
  | atom a =>
    cases a with
    | condition table columns literal =>
      rcases columns with _ | _ | ⟨name, _ | _⟩
      · rfl
      · rfl
      · simp only [Expression.mapLiterals, Atom.mapLiteral, ofExpression?, ofAtom?, hf]
      · rfl
    | relation | never => rfl

end Planning

/-- A reference says nothing to the store, whatever it is to. -/
theorem StorageFilter.ofCondition?_unrolled (name other : String) (column : Column)
    (literal : Literal) :
    ofCondition? column (literal.unrolled name other) = ofCondition? column literal := by
  unfold Literal.unrolled
  split
  · split <;> rfl
  · rfl

namespace Statement

variable {s : Statement} {name other : String}

theorem targetTable_unrolled : (s.unrolled name other).targetTable = s.targetTable := by
  rw [targetTable, targetTable, unrolled, Expression.firstTable?_mapLiterals]

theorem atomsOn_unrolled (table : String) :
    (s.unrolled name other).atomsOn table =
      (s.atomsOn table).map (Atom.mapLiteral (Literal.unrolled name other)) := by
  rw [atomsOn, atomsOn, unrolled, Expression.atoms_mapLiterals, List.filter_map]
  simp only [Function.comp_def, Atom.table?_mapLiteral]

theorem requiredColumns_unrolled (catalog : Catalog) (t : Table) :
    (s.unrolled name other).requiredColumns catalog t = s.requiredColumns catalog t := by
  simp only [requiredColumns, namedColumns, needsAllColumns, atomsOn_unrolled, List.flatMap_map,
    List.any_map, Function.comp_def, Atom.columnNames_mapLiteral, Atom.keyColumns_mapLiteral,
    Atom.testsAllColumns_mapLiteral]
  rfl

end Statement

namespace Executor

variable {x : Executor} {allowed : Option (List String)} {s : Statement} {name other : String}

theorem plan_unrolled : x.plan allowed (s.unrolled name other) = x.plan allowed s := by
  simp only [plan, Statement.targetTable_unrolled, Statement.requiredColumns_unrolled]
  rfl

/-- **The body of a join asks what the join asks.** It has the same plan, makes the same
request and looks up the same relations, against every source. -/
theorem candidates_unrolled :
    x.candidates allowed (s.unrolled name other) = x.candidates allowed s := by
  have hexpression : (s.unrolled name other).expression =
    s.expression.mapLiterals (Literal.unrolled name other) := rfl
  simp only [candidates, plan_unrolled, hexpression, Expression.atoms_mapLiterals,
    resolveRelations_mapLiteral,
    StorageFilter.ofExpression?_mapLiterals _ (StorageFilter.ofCondition?_unrolled name other)]

end Executor

/-! ### The test of the body -/

/-- What an access finds does not depend on the name under which it would fail. -/
theorem accessKey_rename {name : String} {key : Option String} {element : Json}
    {found : Option Json} (h : accessKey name key element = .ok found) (other : String) :
    accessKey other key element = .ok found := by
  cases element <;> cases key <;> first | exact h | cases h

theorem variableKeys_rename {name : String} {values : List Json} {key : Option String}
    {keys : List String} (h : variableKeys name values key = .ok keys) (other : String) :
    variableKeys other values key = .ok keys := by
  obtain ⟨accessed, haccessed, hkeys⟩ := except_bind_eq_ok.mp h
  refine except_bind_eq_ok.mpr ⟨accessed, mapM_eq_ok_iff.mpr ?_, hkeys⟩
  exact (mapM_eq_ok_iff.mp haccessed).imp fun _ _ hfound => accessKey_rename hfound other

/-- The variable that holds one element and nothing else. -/
def Variable.single (element : Json) : Variable :=
  { values := [element] }

/-- The scope of a join taken out of its loop: the element at hand is a variable. -/
def CompileScope.unrolled (scope : CompileScope) (other : String) (element : Json) :
    CompileScope :=
  { scope with context := scope.context.insert other (.single element), frame := none }

section Compiling

variable {scope : CompileScope} {name other : String} {element : Json}

/-- A variable that is bound is not the fresh one. -/
theorem require_unrolled (hfresh : scope.context.get? other = none) {n : String} {v : Variable}
    (h : scope.context.require n = .ok v) :
    (scope.unrolled other element).context.require n = .ok v := by
  rw [Context.require_eq_ok] at h ⊢
  have hne : n ≠ other := by
    rintro rfl
    exact absurd (h.symm.trans hfresh) (Option.some_ne_none v)
  rw [CompileScope.unrolled, Fields.get?_insert, if_neg hne, h]

/-- A reference to the element of the loop finds the keys of the element, which are those
of the variable that holds nothing else. -/
theorem compileVariable_one_unrolled (other : String)
    (hframe : scope.frame = some ⟨name, element⟩) {n : String} {key : Option String}
    {test : Option CellTest} (h : compileVariable scope n key .one = .ok test) :
    n = name ∧ compileVariable (scope.unrolled other element) other key .any = .ok test := by
  rw [compileVariable, hframe] at h
  by_cases hname : name = n
  · have hloop : (some (⟨name, element⟩ : LoopFrame)).filter (fun f => f.name == n) =
        some ⟨name, element⟩ := by simp [hname]
    rw [hloop] at h
    obtain ⟨keys, hkeys, htest⟩ := except_bind_eq_ok.mp h
    have hsingle : (scope.unrolled other element).context.require other = .ok (.single element) :=
      Context.require_eq_ok.mpr (by rw [CompileScope.unrolled, Fields.get?_insert, if_pos rfl])
    refine ⟨hname.symm, except_bind_eq_ok.mpr ⟨_, hsingle, ?_⟩⟩
    exact except_bind_eq_ok.mpr ⟨keys, variableKeys_rename hkeys other, htest⟩
  · have hloop : (some (⟨name, element⟩ : LoopFrame)).filter (fun f => f.name == n) = none := by
      simp [hname]
    rw [hloop] at h
    cases h

/-- A reference to a variable finds it in the loop and out of it. -/
theorem compileVariable_unrolled (element : Json) (hfresh : scope.context.get? other = none)
    {n : String} {key : Option String} {mode : VariableMode} (hmode : mode ≠ .one)
    {test : Option CellTest} (h : compileVariable scope n key mode = .ok test) :
    compileVariable (scope.unrolled other element) n key mode = .ok test := by
  cases mode with
  | one => exact absurd rfl hmode
  | any | all =>
    obtain ⟨v, hv, htest⟩ := except_bind_eq_ok.mp h
    exact except_bind_eq_ok.mpr ⟨v, require_unrolled hfresh hv, htest⟩

variable (hframe : scope.frame = some ⟨name, element⟩) (hfresh : scope.context.get? other = none)

include hframe hfresh

theorem compileLiteral_unrolled {columns : List Column} {literal : Literal} {test : RowTest}
    (h : compileLiteral scope columns literal = .ok test) :
    compileLiteral (scope.unrolled other element) columns (literal.unrolled name other) =
      .ok test := by
  cases literal with
  | text | dateRange | empty | notEmpty | list => exact h
  | variableRef n key mode =>
    obtain ⟨found, hfound, htest⟩ := except_bind_eq_ok.mp h
    cases mode with
    | one =>
      obtain ⟨rfl, hfound⟩ := compileVariable_one_unrolled other hframe hfound
      rw [Literal.unrolled, if_pos rfl]
      exact except_bind_eq_ok.mpr ⟨found, hfound, htest⟩
    | any | all =>
      have hfound := compileVariable_unrolled element hfresh (by decide) hfound
      exact except_bind_eq_ok.mpr ⟨found, hfound, htest⟩

theorem compileAtom_unrolled {a : Atom} {test : RowTest} (h : compileAtom scope a = .ok test) :
    compileAtom (scope.unrolled other element) (a.mapLiteral (Literal.unrolled name other)) =
      .ok test := by
  cases a with
  | condition table columns literal =>
    rw [compileAtom] at h
    rw [Atom.mapLiteral, compileAtom]
    change (if table != scope.table.name then _ else _) = _
    split at h
    · rw [if_pos ‹_›, h]
    · obtain ⟨cs, hcs, hliteral⟩ := except_bind_eq_ok.mp h
      rw [if_neg ‹_›]
      exact except_bind_eq_ok.mpr ⟨cs, hcs, compileLiteral_unrolled hframe hfresh hliteral⟩
  | relation | never => exact h

/-- **A test that compiles in the loop compiles out of it**, and is the same test. -/
theorem compile_unrolled {e : Expression} {test : RowTest} (h : compile scope e = .ok test) :
    compile (scope.unrolled other element) (e.mapLiterals (Literal.unrolled name other)) =
      .ok test := by
  induction e generalizing test with
  | and l r ihl ihr | or l r ihl ihr =>
    obtain ⟨testl, hl, h⟩ := except_bind_eq_ok.mp h
    obtain ⟨testr, hr, h⟩ := except_bind_eq_ok.mp h
    exact except_bind_eq_ok.mpr ⟨testl, ihl hl, except_bind_eq_ok.mpr ⟨testr, ihr hr, h⟩⟩
  | not e ih =>
    obtain ⟨teste, he, h⟩ := except_bind_eq_ok.mp h
    exact except_bind_eq_ok.mpr ⟨teste, ih he, h⟩
  | atom a => exact compileAtom_unrolled hframe hfresh h

end Compiling

/-! ### The loop -/

namespace Executor

variable {x : Executor} {allowed : Option (List String)} {source : FetchCall → FetchAnswer}
  {context : Context} {s : Statement} {name key other : String}

/-- The rows that a join accepts at an element are those of its body. -/
theorem acceptedRows_unrolled (hfresh : context.get? other = none) {c : Candidates}
    {element : Json} {rows : List Row}
    (h : x.acceptedRows s c context (some ⟨name, element⟩) = .ok rows) :
    x.acceptedRows (s.unrolled name other) c (context.insert other (.single element)) none =
      .ok rows := by
  obtain ⟨test, htest, hrows⟩ := except_bind_eq_ok.mp h
  exact except_bind_eq_ok.mpr ⟨test, compile_unrolled rfl hfresh htest, hrows⟩

/-- A join that succeeds has succeeded at every element: the rows accepted there, shaped
and sent through the stages, are attached to the element. -/
theorem forall₂_joinElements {c : Candidates} {index : Nat} {elements joined : List Json}
    (h : (x.joinElements allowed s c context name key index elements).outcome source =
      .ok joined) :
    List.Forall₂ (fun element result => ∃ fields rows r,
      element = .obj fields ∧
      x.acceptedRows s c context (some ⟨name, element⟩) = .ok rows ∧
      (x.runStages allowed s (shapeRows s c.table rows)).outcome source = .ok r ∧
      result = .obj (Fields.insert key r fields)) elements joined := by
  induction elements generalizing index joined with
  | nil =>
    obtain rfl := Except.ok.inj h
    exact .nil
  | cons element rest ih =>
    cases element with
    | obj fields =>
      obtain ⟨rows, hrows, h⟩ := Fetching.outcome_lift_bind_eq_ok.mp h
      obtain ⟨r, hr, h⟩ := Fetching.outcome_bind_eq_ok.mp h
      obtain ⟨others, hothers, h⟩ := Fetching.outcome_bind_eq_ok.mp h
      obtain rfl := Except.ok.inj h
      exact .cons ⟨fields, rows, r, rfl, hrows, hr, rfl⟩ (ih hothers)
    | null | bool | num | str | arr => cases h

/-- The element, an object, becomes the same object with one field set to what the body of
the join comes to where a variable holds the element. -/
def Attaches (x : Executor) (allowed : Option (List String)) (source : FetchCall → FetchAnswer)
    (context : Context) (s : Statement) (name key other : String) (element result : Json) :
    Prop :=
  ∃ fields r alone,
    element = .obj fields ∧
    (x.runStatement allowed (context.insert other (.single element))
      (s.unrolled name other)).outcome source = .ok (r, alone) ∧
    result = .obj (Fields.insert key r fields) ∧
    ∀ field, (Fields.insert key r fields).get? field =
      if field = key then some r else Fields.get? fields field

/-- The body comes to what the join attaches, on the rows that the join has. -/
theorem outcome_unrolled (hfresh : context.get? other = none) {c : Candidates}
    (hc : (x.candidates allowed s).outcome source = .ok c) {element r : Json} {rows : List Row}
    (hrows : x.acceptedRows s c context (some ⟨name, element⟩) = .ok rows)
    (hr : (x.runStages allowed s (shapeRows s c.table rows)).outcome source = .ok r) :
    ∃ alone, (x.runStatement allowed (context.insert other (.single element))
      (s.unrolled name other)).outcome source = .ok (r, alone) := by
  refine ⟨describe (s.unrolled name other) c r (rows.map fun row =>
    cellOrNull row c.table.idColumn), Fetching.outcome_bind_eq_ok.mpr ⟨c, ?_, ?_⟩⟩
  · rw [candidates_unrolled, hc]
  · refine Fetching.outcome_lift_bind_eq_ok.mpr ⟨rows, acceptedRows_unrolled hfresh hrows, ?_⟩
    exact Fetching.outcome_bind_eq_ok.mpr ⟨r, hr, rfl⟩

/-- **A join is a nested loop.** Where a join over a variable succeeds, under any catalog,
policy, stages and options and against any source, its result has an element for each
value of the variable, in the order of the values: the value, an object, with the key set
to what the body of the join comes to by itself, run with requests of its own where a
fresh variable holds this value and nothing else. Behind the join its variable has the
joined elements as its values and is else as it was, and the other variables are as they
were, except for the latest result. -/
theorem outcome_join (x : Executor) (allowed : Option (List String))
    (source : FetchCall → FetchAnswer) (context : Context) (s : Statement)
    (name key other : String) (value : Json) (kept : Variable)
    (hname : s.name = some name) (hkey : s.targetKey = some key)
    (hfresh : context.get? other = none)
    (h : (x.runStatement allowed context s).outcome source = .ok (value, kept)) :
    ∃ v joined, context.get? name = some v ∧ value = .arr joined ∧
      List.Forall₂ (x.Attaches allowed source context s name key other) v.values joined ∧
      (context.bind s.name kept).get? name = some { v with values := joined } ∧
      ∀ n, n ≠ name → n ≠ latestName → (context.bind s.name kept).get? n = context.get? n := by
  obtain ⟨c, hc, h⟩ := Fetching.outcome_bind_eq_ok.mp h
  simp only [hname, hkey] at h
  obtain ⟨v, hv, h⟩ := Fetching.outcome_lift_bind_eq_ok.mp h
  obtain ⟨joined, hjoined, h⟩ := Fetching.outcome_bind_eq_ok.mp h
  cases h
  refine ⟨v, joined, Context.require_eq_ok.mp hv, rfl, ?_, ?_, ?_⟩
  · refine (forall₂_joinElements hjoined).imp ?_
    rintro element result ⟨fields, rows, r, helement, hrows, hr, hresult⟩
    obtain ⟨alone, halone⟩ := outcome_unrolled hfresh hc hrows hr
    exact ⟨fields, r, alone, helement, halone, hresult, fun field => Fields.get?_insert ..⟩
  · rw [Context.get?_bind, if_pos (Or.inl hname)]
  · intro n hne hlatest
    rw [Context.get?_bind, if_neg]
    rintro (hn | hn)
    · exact hne (Option.some.inj (hn.symm.trans hname))
    · exact hlatest hn

/-- To two elements, one of them a post that is there, the posts of the same id. -/
theorem outcome_join_joinedPosts :
    let x : Executor := ⟨.blog, { grants := [("posts", .all)] }, .builtin, ⟨.failFast, false⟩⟩
    let element (id : Nat) : Json := .obj [("id", .ofNat id)]
    let context : Context := [("seen", { values := [element 7, element 8] })]
    let s := joinedPosts[1]
    ∃ value kept, s.name = some "seen" ∧ s.targetKey = some "same" ∧
      context.get? "at" = none ∧
      (x.runStatement none context s).outcome onePost.fetch = .ok (value, kept) ∧
      ∃ v joined, context.get? "seen" = some v ∧ value = .arr joined ∧
        List.Forall₂ (x.Attaches none onePost.fetch context s "seen" "same" "at")
          v.values joined ∧
        (context.bind s.name kept).get? "seen" = some { v with values := joined } ∧
        ∀ n, n ≠ "seen" → n ≠ latestName →
          (context.bind s.name kept).get? n = context.get? n := by
  intro x element context s
  let joined : List Json :=
    [.obj [("id", .ofNat 7), ("same", .arr [.ofNat 7])], .obj [("id", .ofNat 8), ("same", .arr [])]]
  have hrun : (x.runStatement none context s).outcome onePost.fetch =
      .ok (.arr joined, { values := joined }) := by decide +kernel
  exact ⟨_, _, rfl, rfl, by decide, hrun,
    outcome_join x none onePost.fetch context s "seen" "same" "at" _ _ rfl rfl (by decide) hrun⟩

end Executor

end TableQuery
