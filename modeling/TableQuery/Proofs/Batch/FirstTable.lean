import TableQuery.Proofs.Batch.Steps
import TableQuery.Proofs.Pushdown.Statements
import TableQuery.Proofs.Schema.Built

/-!
# The first table wins

A statement takes its rows from the table of its first atom that names one, and an atom
of any other table is as good as the atom that no row satisfies. This is a matter of five
places that each look at the table of an atom by themselves: the choice of the target,
the columns that are needed, the filter that is pushed down, the relations that are
looked up and the test of the rows. Each of them does the same for an expression and for
its restriction to the target, in which `Atom.never` stands in for every foreign atom,
whatever the connectives around it
(`TableQuery.StorageFilter.ofExpression?_restrictTo`,
`TableQuery.resolveRelations_restrictTo`, `TableQuery.compile_restrictTo`). So the
statement is the same computation before and after
(`TableQuery.Executor.runStatement_restrictTo`), and so is the batch.

One thing is to be checked besides. The test of a foreign relation asks for what was
looked up under its name, and `Atom.never` asks for nothing; it finds nothing either, as
only relations that start at the target are ever looked up
(`TableQuery.resolveRelations_bind_congr`).
-/

namespace TableQuery

/-! ### Foreign atoms left out -/

/-- The atom if it is one of the table, and otherwise the one that no row satisfies. -/
def Atom.restrictTo (table : String) (a : Atom) : Atom :=
  if a.table? = some table then a else .never

/-- The expression with every atom of another table left out. -/
def Expression.restrictTo (table : String) : Expression → Expression
  | .and l r => .and (l.restrictTo table) (r.restrictTo table)
  | .or l r => .or (l.restrictTo table) (r.restrictTo table)
  | .not e => .not (e.restrictTo table)
  | .atom a => .atom (a.restrictTo table)

/-- The statement with every atom of another table left out. -/
def Statement.restrictTo (table : String) (s : Statement) : Statement :=
  { s with expression := s.expression.restrictTo table }

variable {table : String}

namespace Atom

theorem restrictTo_of_eq {a : Atom} (h : a.table? = some table) : a.restrictTo table = a :=
  if_pos h

theorem restrictTo_of_ne {a : Atom} (h : a.table? ≠ some table) : a.restrictTo table = never :=
  if_neg h

end Atom

theorem Expression.atoms_restrictTo (e : Expression) :
    (e.restrictTo table).atoms = e.atoms.map (Atom.restrictTo table) := by
  induction e with
  | and l r ihl ihr | or l r ihl ihr => simp only [restrictTo, atoms, ihl, ihr, List.map_append]
  | not e ih => exact ih
  | atom a => rfl

/-! ### The target -/

/-- The atoms in front of the one that decides name no table, so leaving them out moves
no other atom to the front. -/
theorem findSome?_table?_restrictTo {atoms : List Atom}
    (h : atoms.findSome? Atom.table? = some table) :
    (atoms.map (Atom.restrictTo table)).findSome? Atom.table? = some table := by
  induction atoms with
  | nil => exact h
  | cons a rest ih =>
    rw [List.findSome?_cons] at h
    rw [List.map_cons, List.findSome?_cons]
    cases ha : a.table? with
    | none =>
      rw [ha] at h
      rw [Atom.restrictTo_of_ne (by simp [ha])]
      exact ih h
    | some t =>
      rw [ha] at h
      obtain rfl := Option.some.inj h
      rw [Atom.restrictTo_of_eq ha, ha]

namespace Statement

variable {s : Statement}

theorem firstTable?_restrictTo (h : s.expression.firstTable? = some table) :
    (s.restrictTo table).expression.firstTable? = some table := by
  rw [restrictTo, Expression.firstTable?, Expression.atoms_restrictTo]
  exact findSome?_table?_restrictTo h

theorem targetTable_restrictTo (h : s.expression.firstTable? = some table) :
    (s.restrictTo table).targetTable = s.targetTable := by
  rw [targetTable, targetTable, firstTable?_restrictTo h, h]

/-! ### The columns -/

theorem atomsOn_restrictTo : (s.restrictTo table).atomsOn table = s.atomsOn table := by
  rw [atomsOn, atomsOn, restrictTo, Expression.atoms_restrictTo]
  induction s.expression.atoms with
  | nil => rfl
  | cons a rest ih =>
    by_cases ha : a.table? = some table
    · simp only [List.map_cons, Atom.restrictTo_of_eq ha, List.filter_cons, ha, beq_self_eq_true,
        if_true, ih]
    · rw [List.map_cons, Atom.restrictTo_of_ne ha, List.filter_cons_of_neg (by simp [Atom.table?]),
        List.filter_cons_of_neg (by simpa using ha), ih]

theorem requiredColumns_restrictTo (catalog : Catalog) (t : Table) :
    (s.restrictTo t.name).requiredColumns catalog t = s.requiredColumns catalog t := by
  simp only [requiredColumns, namedColumns, needsAllColumns, atomsOn_restrictTo]
  rfl

end Statement

/-! ### The filter -/

namespace StorageFilter

variable {t : Table}

theorem ofAtom?_eq_none_of_ne {a : Atom} (h : a.table? ≠ some t.name) : ofAtom? t a = none := by
  unfold ofAtom?
  split
  · rename_i name literal
    exact if_neg fun heq => h (congrArg some (beq_iff_eq.mp heq))
  · rfl

theorem ofExpression?_restrictTo (e : Expression) :
    ofExpression? t (e.restrictTo t.name) = ofExpression? t e := by
  induction e with
  | and l r ihl ihr | or l r ihl ihr =>
    rw [Expression.restrictTo, ofExpression?, ofExpression?, ihl, ihr]
  | not e => rfl
  | atom a =>
    by_cases ha : a.table? = some t.name
    · rw [Expression.restrictTo, Atom.restrictTo_of_eq ha]
    · rw [Expression.restrictTo, Atom.restrictTo_of_ne ha]
      exact (ofAtom?_eq_none_of_ne ha).symm

end StorageFilter

/-! ### The relations -/

section Relations

variable {scope : Scope} {rows : List Row}

theorem resolveRelations_cons_of_ne {a : Atom} (h : a.table? ≠ some table) (rest : List Atom)
    (checks : RelationChecks) :
    resolveRelations scope table rows (a :: rest) checks =
      resolveRelations scope table rows rest checks := by
  cases a with
  | relation direction source target =>
    have hsource : (source == table) = false := beq_eq_false_iff_ne.mpr fun heq =>
      h (congrArg some heq)
    rw [resolveRelations, hsource, Bool.false_and]
    rfl
  | condition | never => rfl

/-- Foreign relations are not looked up. -/
theorem resolveRelations_restrictTo (atoms : List Atom) (checks : RelationChecks) :
    resolveRelations scope table rows (atoms.map (Atom.restrictTo table)) checks =
      resolveRelations scope table rows atoms checks := by
  induction atoms generalizing checks with
  | nil => rfl
  | cons a rest ih =>
    by_cases ha : a.table? = some table
    · rw [List.map_cons, Atom.restrictTo_of_eq ha]
      cases a with
      | relation direction source target => simp only [resolveRelations, ih]
      | condition | never => exact ih checks
    · rw [List.map_cons, Atom.restrictTo_of_ne ha, resolveRelations_cons_of_ne ha, ← ih]
      exact resolveRelations_cons_of_ne (by simp [Atom.table?]) _ _

/-- Only relations that start at the table have been looked up. -/
def RelationChecks.StartAt (checks : RelationChecks) (table : String) : Prop :=
  ∀ direction source target, source ≠ table → checks.lookup (direction, source, target) = none

theorem RelationChecks.startAt_nil : StartAt [] table :=
  fun _ _ _ _ => rfl

theorem RelationChecks.StartAt.append {checks : RelationChecks} (h : checks.StartAt table)
    (direction : Direction) (target : String) (check : RelationCheck) :
    StartAt (checks ++ [((direction, table, target), check)]) table := by
  intro direction' source' target' hne
  have hkey : ((direction', source', target') == (direction, table, target)) = false :=
    beq_eq_false_iff_ne.mpr fun heq => hne (congrArg (·.2.1) heq)
  rw [List.lookup_append, h direction' source' target' hne, List.lookup_cons, hkey]
  rfl

/-- What is done with the relations of a statement has to be known only where all of them
start at its table. -/
theorem resolveRelations_bind_congr {α : Type} {f g : RelationChecks → Fetching α}
    (hfg : ∀ checks : RelationChecks, checks.StartAt table → f checks = g checks)
    (atoms : List Atom) {checks : RelationChecks} (hchecks : checks.StartAt table) :
    resolveRelations scope table rows atoms checks >>= f =
      resolveRelations scope table rows atoms checks >>= g := by
  induction atoms generalizing checks with
  | nil => exact hfg checks hchecks
  | cons a rest ih =>
    by_cases ha : a.table? = some table
    · cases a with
      | relation direction source target =>
        obtain rfl : source = table := Option.some.inj ha
        rw [resolveRelations]
        split
        · rw [Fetching.bind_assoc, Fetching.bind_assoc]
          congr 1
          funext check
          exact ih (hchecks.append direction target check)
        · exact ih hchecks
      | condition | never => exact ih hchecks
    · rw [resolveRelations_cons_of_ne ha]
      exact ih hchecks

end Relations

/-! ### The test -/

theorem compileAtom_of_ne {scope : CompileScope} {a : Atom} (h : a.table? ≠ some scope.table.name)
    (hrelations : scope.relations.StartAt scope.table.name) :
    compileAtom scope a = .ok fun _ => false := by
  cases a with
  | condition name columns literal =>
    have hname : name ≠ scope.table.name := fun heq => h (congrArg some heq)
    rw [compileAtom, if_pos (bne_iff_ne.mpr hname)]
  | relation direction source target =>
    have hsource : source ≠ scope.table.name := fun heq => h (congrArg some heq)
    rw [compileAtom, hrelations direction source target hsource]
    rfl
  | never => rfl

/-- The test of an expression sees its foreign atoms as false and reports no error in
them. -/
theorem compile_restrictTo {scope : CompileScope}
    (hrelations : scope.relations.StartAt scope.table.name) (e : Expression) :
    compile scope (e.restrictTo scope.table.name) = compile scope e := by
  induction e with
  | and l r ihl ihr | or l r ihl ihr =>
    rw [Expression.restrictTo, compile, compile, ihl, ihr]
  | not e ih => rw [Expression.restrictTo, compile, compile, ih]
  | atom a =>
    by_cases ha : a.table? = some scope.table.name
    · rw [Expression.restrictTo, Atom.restrictTo_of_eq ha]
    · rw [Expression.restrictTo, Atom.restrictTo_of_ne ha]
      exact (compileAtom_of_ne ha hrelations).symm

/-! ### Statements and batches -/

namespace Executor

variable {x : Executor} {allowed : Option (List String)} {context : Context} {s : Statement}

theorem plan_restrictTo (h : s.expression.firstTable? = some table) :
    x.plan allowed (s.restrictTo table) = x.plan allowed s := by
  rw [plan, plan, Statement.targetTable_restrictTo h, Statement.targetTable, h]
  simp only [bind, Except.bind]
  cases x.whitelist.checkTable table with
  | error e => rfl
  | ok _ =>
    cases checkAllowed table allowed with
    | error e => rfl
    | ok _ =>
      cases ht : x.catalog.table table with
      | error e => rfl
      | ok t =>
        obtain ⟨-, rfl⟩ := Catalog.mem_tables_of_table? (Catalog.table_eq_ok.mp ht)
        dsimp only
        rw [Statement.requiredColumns_restrictTo]
        rfl

section Finish

variable {c : Candidates} (hrelations : c.relations.StartAt c.table.name)

include hrelations

theorem acceptedRows_restrictTo (frame : Option LoopFrame) :
    x.acceptedRows (s.restrictTo c.table.name) c context frame =
      x.acceptedRows s c context frame := by
  let scope : CompileScope := ⟨c.table, context, frame, c.relations, x.options.emptyMeansAll⟩
  have htest : compile scope (s.expression.restrictTo scope.table.name) =
      compile scope s.expression := compile_restrictTo hrelations s.expression
  rw [acceptedRows, acceptedRows]
  exact congrArg (· >>= _) htest

theorem joinElements_restrictTo (name key : String) (index : Nat) (elements : List Json) :
    x.joinElements allowed (s.restrictTo c.table.name) c context name key index elements =
      x.joinElements allowed s c context name key index elements := by
  induction elements generalizing index with
  | nil => rfl
  | cons element rest ih =>
    cases element with
    | obj fields =>
      rw [joinElements, joinElements, acceptedRows_restrictTo hrelations, ih]
      rfl
    | null | bool | num | str | arr => rfl

theorem finish_restrictTo :
    x.finish allowed context (s.restrictTo c.table.name) c = x.finish allowed context s c := by
  have hname : (s.restrictTo c.table.name).name = s.name := rfl
  have hkey : (s.restrictTo c.table.name).targetKey = s.targetKey := rfl
  unfold finish
  rw [hname, hkey]
  split
  · simp only [join, joinElements_restrictTo hrelations]
  · rw [evaluate, evaluate, acceptedRows_restrictTo hrelations]
    rfl

end Finish

/-- **A statement does not see its foreign atoms**: without them it is the same
computation, with the same requests under the same answers. -/
theorem runStatement_restrictTo (h : s.expression.firstTable? = some table) :
    x.runStatement allowed context (s.restrictTo table) = x.runStatement allowed context s := by
  have hplans : x.plan allowed (s.restrictTo table) = x.plan allowed s := plan_restrictTo h
  cases hplan : x.plan allowed s with
  | error e =>
    rw [runStatement_of_plan_error hplan, runStatement_of_plan_error (hplans.trans hplan)]
  | ok planned =>
    obtain ⟨t, columns⟩ := planned
    obtain rfl : t.name = table := Option.some.inj ((planned_of_plan hplan).target.symm.trans h)
    have hcall : rowsCall (s.restrictTo t.name) t columns = rowsCall s t columns := by
      rw [rowsCall, rowsCall, Statement.restrictTo, StorageFilter.ofExpression?_restrictTo]
    rw [runStatement_of_plan hplan, runStatement_of_plan (hplans.trans hplan), hcall]
    congr 1
    funext answer
    cases answer with
    | error e => rfl
    | ok rows =>
      dsimp only
      rw [Statement.restrictTo, Expression.atoms_restrictTo, resolveRelations_restrictTo]
      exact resolveRelations_bind_congr
        (fun relations hrelations => finish_restrictTo (c := ⟨t, columns, rows, relations⟩)
          hrelations) _ RelationChecks.startAt_nil

theorem run_restrictTo (h : s.expression.firstTable? = some table)
    (earlier later : List Statement) :
    x.run (earlier ++ s.restrictTo table :: later) allowed =
      x.run (earlier ++ s :: later) allowed := by
  rw [run, run, runFrom_append, runFrom_append]
  congr 1
  funext out
  rw [runFrom, runFrom, runStatement_restrictTo h]
  rfl

/-- **The first table wins.** In a batch under any catalog, policy, stages and options,
the atoms of a statement that name another table than the first one may be replaced by
the atom that no row satisfies: against every source the batch has the same output, or
the same error, and makes the same requests. -/
theorem runOn_run_restrictTo (catalog : Catalog) (whitelist : Whitelist) (registry : Registry)
    (options : RunOptions) (allowed : Option (List String)) (earlier later : List Statement)
    (s : Statement) (table : String) (h : s.expression.firstTable? = some table)
    (source : FetchCall → FetchAnswer) :
    let x : Executor := ⟨catalog, whitelist, registry, options⟩
    (x.run (earlier ++ s.restrictTo table :: later) allowed).runOn source =
      (x.run (earlier ++ s :: later) allowed).runOn source := by
  intro x
  rw [run_restrictTo h]

/-- Posts by their title, with two atoms on users: no catalog relation leads from a user to a
post that way round, and the variable is bound nowhere. -/
def blogForeign : Statement where
  expression := .or (.atom (.condition "posts" (some ["title"]) (.text "lean" false .contains)))
    (.and (.not (.not (.atom (.relation .forward "users" "posts"))))
      (.atom (.condition "users" none (.variableRef "nobody" none .all))))

/-- The atoms on users need no grant and no variable, and find nothing. -/
theorem runOn_run_restrictTo_blog :
    let x : Executor := ⟨.blog, ⟨[("posts", .all)]⟩, .builtin, {}⟩
    let store : Store := { tables := [("posts", [[("id", .ofNat 7), ("title", .str "On Lean")]])] }
    let ids : Variable := { values := [.ofNat 7], column := some "id", table := some "posts" }
    blogForeign.expression.firstTable? = some "posts" ∧
      (x.run ([] ++ blogForeign.restrictTo "posts" :: [blogForeign]) none).runOn store.fetch =
        (x.run ([] ++ blogForeign :: [blogForeign]) none).runOn store.fetch ∧
      (x.run ([] ++ blogForeign :: [blogForeign]) none).outcome store.fetch =
        .ok ⟨[("_prev", ids)], [("result", .arr [.ofNat 7])]⟩ := by
  intro x store ids
  have hfirst : blogForeign.expression.firstTable? = some "posts" := rfl
  refine ⟨hfirst, ?_, by decide +kernel⟩
  exact runOn_run_restrictTo .blog ⟨[("posts", .all)]⟩ .builtin {} none [] [blogForeign]
    blogForeign "posts" hfirst store.fetch

end Executor

end TableQuery
