import Mathlib.Data.Option.NAry
import TableQuery.Proofs.Batch.Requests
import TableQuery.Proofs.Query.Rearranging
import TableQuery.Proofs.Relations.Lookup

/-!
# The order of operands does not matter

Swapping the operands of a connective, or grouping a chain of one connective in another
way, does not change what a statement on one table comes to
(`TableQuery.Executor.outcome_rearranged`). The expression is read four times on the way:
for the plan, for the filter that is pushed down, for the relations that are looked up
and for the test, which a join compiles anew for each element. Every reading goes from
left to right and ends with the first error it meets, so which error there is may well
depend on the order. Whether there is one does not, and neither does the value without
one. Most lemmas of this file therefore speak of `Except.toOption`, an outcome whose error
is forgotten.

One reading is not as good-natured. A filter stops at the first operand that decides,
and a search behind it that the store does not support goes unnoticed; in another order
the same search may end the request. But where the filter comes to a verdict at all, it is
the truth of the expression (`TableQuery.StorageFilter.eq_truth_of_eval`), and so two
requests that are both answered are answered alike
(`TableQuery.Store.fetch_rearranged`).
-/

namespace TableQuery

/-! ### The plan -/

section Planning

variable {e f : Expression} {table : String}

/-- The expression names no table but this one. -/
def Expression.NamesOnly (e : Expression) (table : String) : Prop :=
  ∀ a ∈ e.atoms, ∀ name ∈ a.table?, name = table

instance : Decidable (e.NamesOnly table) :=
  inferInstanceAs (Decidable (∀ a ∈ e.atoms, ∀ name ∈ a.table?, name = table))

theorem Expression.Rearranged.firstTable?_eq (h : e.Rearranged f) (hnames : e.NamesOnly table) :
    f.firstTable? = e.firstTable? := by
  have hmem : ∀ a, a ∈ f.atoms ↔ a ∈ e.atoms := fun a => h.perm_atoms.mem_iff.symm
  cases he : e.firstTable? with
  | none =>
    rw [firstTable?, List.findSome?_eq_none_iff] at he ⊢
    exact fun a ha => he a ((hmem a).mp ha)
  | some name =>
    obtain ⟨a, ha, hname⟩ := List.exists_of_findSome?_eq_some he
    obtain rfl := hnames a ha name hname
    obtain ⟨name', hname'⟩ : ∃ name', f.firstTable? = some name' := by
      refine Option.isSome_iff_exists.mp (List.findSome?_isSome_iff.mpr ?_)
      exact ⟨a, (hmem a).mpr ha, by rw [hname]; rfl⟩
    obtain ⟨b, hb, hbname⟩ := List.exists_of_findSome?_eq_some hname'
    rw [hname', hnames b ((hmem b).mp hb) name' hbname]

end Planning

/-- What a statement needs, whatever error it may end with. -/
theorem Statement.toOption_requiredColumns (s : Statement) (catalog : Catalog) (t : Table) :
    (s.requiredColumns catalog t).toOption =
      if (s.namedColumns catalog t).any fun name => (t.column? name).isNone then none
      else some ⟨t.columnNames.filter fun name =>
        s.needsAllColumns t || (s.namedColumns catalog t).contains name, s.needsAllColumns t⟩ := by
  rw [requiredColumns, ← List.isSome_find?]
  cases (s.namedColumns catalog t).find? fun name => (t.column? name).isNone <;> rfl

section Columns

variable {s : Statement} {e : Expression}

/-- The columns that are needed are a matter of which names there are, not of their
order. -/
theorem Statement.toOption_requiredColumns_rearranged (h : s.expression.Rearranged e)
    (catalog : Catalog) (t : Table) :
    (({ s with expression := e } : Statement).requiredColumns catalog t).toOption =
      (s.requiredColumns catalog t).toOption := by
  let s' : Statement := { s with expression := e }
  have hatoms : (s.atomsOn t.name).Perm (s'.atomsOn t.name) := h.perm_atoms.filter _
  have hnamed : (s.namedColumns catalog t).Perm (s'.namedColumns catalog t) :=
    ((List.Perm.refl _).append (hatoms.flatMap_right _)).append (hatoms.flatMap_right _)
  have hall : s.needsAllColumns t = s'.needsAllColumns t :=
    congrArg (s.projection == .all || ·) hatoms.any_eq
  show (s'.requiredColumns catalog t).toOption = _
  rw [toOption_requiredColumns, toOption_requiredColumns, ← hall, ← hnamed.any_eq]
  simp only [← hnamed.contains_eq]

end Columns

namespace Executor

variable {x : Executor} {allowed : Option (List String)} {s : Statement} {e : Expression}
variable {table : String}

/-- **The plan does not depend on the order of operands**, but for its error. -/
theorem toOption_plan (h : s.expression.Rearranged e) (hnames : s.expression.NamesOnly table) :
    (x.plan allowed { s with expression := e }).toOption = (x.plan allowed s).toOption := by
  have htarget : ({ s with expression := e } : Statement).targetTable = s.targetTable := by
    rw [Statement.targetTable, Statement.targetTable, h.firstTable?_eq hnames]
  have hrequired := Statement.toOption_requiredColumns_rearranged h x.catalog
  rw [plan, plan, htarget]
  simp only [except_toOption_bind, hrequired]
  rfl

end Executor

/-! ### The filter -/

namespace Verdict

variable {first second : Verdict} {b : Bool}

theorem andThen_eq_holds : first.andThen second = .holds b ↔
    (first = .holds false ∧ b = false) ∨ (first = .holds true ∧ second = .holds b) := by
  rcases first with (_ | _) | _ <;> simp [andThen, eq_comm]

theorem orElse_eq_holds : first.orElse second = .holds b ↔
    (first = .holds true ∧ b = true) ∨ (first = .holds false ∧ second = .holds b) := by
  rcases first with (_ | _) | _ <;> simp [orElse, eq_comm]

end Verdict

namespace StorageFilter

variable {t : Table} {e e' : Expression} {f f' : StorageFilter} {row : Row}

/-- Whether an expression is pushed down is not a matter of the order of its operands. -/
theorem isSome_ofExpression?_rearranged (h : e.Rearranged e') (t : Table) :
    (ofExpression? t e).isSome = (ofExpression? t e').isSome := by
  have hjoin (c : Connective) (l r : Expression) : (ofExpression? t (c.join l r)).isSome =
      ((ofExpression? t l).isSome && (ofExpression? t r).isSome) := by
    cases c <;> rw [Connective.join, ofExpression?] <;>
      cases ofExpression? t l <;> cases ofExpression? t r <;> rfl
  exact h.apply_eq (fun e => (ofExpression? t e).isSome) (fun _ => Bool.and)
    (fun _ => Bool.and_comm) (fun _ => Bool.and_assoc) hjoin (fun _ => false) fun _ => rfl

/-- What is pushed down of an atom says that it holds. -/
def atomHolds (t : Table) (row : Row) (a : Atom) : Bool :=
  (ofAtom? t a).any fun f => f.eval row == .holds true

/-- **A verdict is the truth** of the expression, as far as the filter comes to one. -/
theorem eq_truth_of_eval (hf : ofExpression? t e = some f) {b : Bool}
    (h : f.eval row = .holds b) : b = e.truth (atomHolds t row) := by
  induction e generalizing f b with
  | and l r ihl ihr =>
    obtain ⟨fl, hfl, hf⟩ := Option.bind_eq_some_iff.mp hf
    obtain ⟨fr, hfr, hf⟩ := Option.bind_eq_some_iff.mp hf
    obtain rfl := Option.some.inj hf
    rw [eval_mergeAnd] at h
    rcases Verdict.andThen_eq_holds.mp h with ⟨hl, rfl⟩ | ⟨hl, hr⟩
    · rw [Expression.truth, ← ihl hfl hl, Bool.false_and]
    · rw [Expression.truth, ← ihl hfl hl, ← ihr hfr hr, Bool.true_and]
  | or l r ihl ihr =>
    obtain ⟨fl, hfl, hf⟩ := Option.bind_eq_some_iff.mp hf
    obtain ⟨fr, hfr, hf⟩ := Option.bind_eq_some_iff.mp hf
    obtain rfl := Option.some.inj hf
    rw [eval_mergeOr] at h
    rcases Verdict.orElse_eq_holds.mp h with ⟨hl, rfl⟩ | ⟨hl, hr⟩
    · rw [Expression.truth, ← ihl hfl hl, Bool.true_or]
    · rw [Expression.truth, ← ihl hfl hl, ← ihr hfr hr, Bool.false_or]
  | not e => cases hf
  | atom a =>
    have hatom : ofAtom? t a = some f := hf
    rw [Expression.truth, atomHolds, hatom, Option.any_some, h]
    cases b <;> rfl

/-- Two filters of one expression that both come to a verdict come to the same one. -/
theorem eval_rearranged (h : e.Rearranged e') (hf : ofExpression? t e = some f)
    (hf' : ofExpression? t e' = some f') {b b' : Bool} (hb : f.eval row = .holds b)
    (hb' : f'.eval row = .holds b') : b = b' := by
  rw [eq_truth_of_eval hf hb, eq_truth_of_eval hf' hb', h.truth_eq]

end StorageFilter

/-! ### The rows -/

namespace Store

variable {call : FetchCall} {rows answer : List Row}

/-- Where a request is answered, its filter has come to a verdict on every row. -/
theorem holds_of_select (h : select call rows = .ok answer) : ∀ row ∈ rows,
    ∃ b, (call.filter.map fun f => f.eval row).getD (.holds true) = .holds b := by
  induction rows generalizing answer with
  | nil => exact fun row hrow => absurd hrow List.not_mem_nil
  | cons row rest ih =>
    rw [select] at h
    have hfirst : ∃ b, (call.filter.map fun f => f.eval row).getD (.holds true) = .holds b := by
      split at h
      · exact ⟨true, ‹_›⟩
      · exact ⟨false, ‹_›⟩
      · cases h
    have hrest : ∃ others, select call rest = .ok others := by
      cases hothers : select call rest with
      | ok others => exact ⟨others, rfl⟩
      | error e => obtain ⟨_ | _, hb⟩ := hfirst <;> rw [hb, hothers] at h <;> cases h
    obtain ⟨others, hothers⟩ := hrest
    intro r hr
    rcases List.mem_cons.mp hr with rfl | hr
    · exact hfirst
    · exact ih hothers r hr

/-- **Requests that are both answered are answered alike**, if their filters are those of
one expression up to the order of its operands. -/
theorem fetch_rearranged {t : Table} {e e' : Expression} (h : e.Rearranged e') {store : Store}
    {columns : List String} {answer answer' : List Row}
    (hanswer : store.fetch ⟨t.name, columns, StorageFilter.ofExpression? t e⟩ = .ok answer)
    (hanswer' : store.fetch ⟨t.name, columns, StorageFilter.ofExpression? t e'⟩ = .ok answer') :
    answer = answer' := by
  obtain ⟨rows, hrows, rfl⟩ := fetch_eq_ok hanswer
  obtain ⟨rows', hrows', rfl⟩ := fetch_eq_ok hanswer'
  obtain rfl := Option.some.inj (hrows.symm.trans hrows')
  rw [fetch_of_rows? hrows] at hanswer
  rw [fetch_of_rows? hrows'] at hanswer'
  have hsome := StorageFilter.isSome_ofExpression?_rearranged h t
  refine congrArg (List.map (projectRow columns)) (List.filter_congr fun row hrow => ?_)
  obtain ⟨b, hb⟩ := holds_of_select hanswer row hrow
  obtain ⟨b', hb'⟩ := holds_of_select hanswer' row hrow
  rw [Lets, Lets, hb, hb']
  cases hf : StorageFilter.ofExpression? t e with
  | none =>
    -- then neither of the two carries a filter
    have hf' : StorageFilter.ofExpression? t e' = none := by
      rw [hf] at hsome
      exact Option.isNone_iff_eq_none.mp (Option.isSome_eq_false_iff.mp hsome.symm)
    rw [hf] at hb
    rw [hf'] at hb'
    rw [← hb, ← hb']
  | some f =>
    obtain ⟨f', hf'⟩ := Option.isSome_iff_exists.mp (hsome.symm.trans (by rw [hf]; rfl))
    rw [hf] at hb
    rw [hf'] at hb'
    rw [StorageFilter.eval_rearranged h hf hf' hb hb']

end Store

/-! ### The relations -/

section Relations

variable {scope : Scope} {table : String} {rows : List Row} {fetch : FetchCall → FetchAnswer}
variable {atoms atoms' : List Atom} {checks final final' : RelationChecks}

/-- Relations that can be looked up one by one can be looked up all. -/
theorem exists_resolveRelations
    (h : ∀ direction target, .relation direction table target ∈ atoms →
      ∃ check, (resolveRelation scope rows direction table target).outcome fetch = .ok check)
    (checks : RelationChecks) :
    ∃ final, (resolveRelations scope table rows atoms checks).outcome fetch = .ok final := by
  induction atoms generalizing checks with
  | nil => exact ⟨checks, rfl⟩
  | cons a rest ih =>
    have hrest := ih fun direction target hmem =>
      h direction target (List.mem_cons_of_mem _ hmem)
    cases a with
    | relation direction source target =>
      rw [resolveRelations]
      split
      · rename_i hfresh
        obtain rfl : source = table := beq_iff_eq.mp (Bool.and_eq_true_iff.mp hfresh).1
        obtain ⟨check, hcheck⟩ := h direction target (List.mem_cons_self ..)
        obtain ⟨final, hfinal⟩ := hrest (checks ++ [((direction, source, target), check)])
        exact ⟨final, Fetching.outcome_bind_eq_ok.mpr ⟨check, hcheck, hfinal⟩⟩
      · exact hrest checks
    | condition | never => exact hrest checks

theorem RelationChecks.lookedUp_nil : RelationChecks.LookedUp [] scope rows fetch :=
  fun _ _ _ _ h => by cases h

/-- Whether all lookups succeed is not a matter of their order. -/
theorem exists_resolveRelations_of_perm (h : atoms.Perm atoms')
    (hok : (resolveRelations scope table rows atoms []).outcome fetch = .ok final) :
    ∃ final', (resolveRelations scope table rows atoms' []).outcome fetch = .ok final' := by
  obtain ⟨hlooked, hall⟩ := lookedUp_of_resolveRelations RelationChecks.lookedUp_nil hok
  refine exists_resolveRelations (fun direction target hmem => ?_) []
  obtain ⟨check, hcheck⟩ := Option.isSome_iff_exists.mp
    (hall direction target (h.mem_iff.mpr hmem))
  exact ⟨check, hlooked direction table target check hcheck⟩

/-- **What is known about a relation is not a matter of the order** in which relations
are looked up. -/
theorem lookup_eq_of_perm (h : atoms.Perm atoms')
    (hok : (resolveRelations scope table rows atoms []).outcome fetch = .ok final)
    (hok' : (resolveRelations scope table rows atoms' []).outcome fetch = .ok final')
    {direction : Direction} {target : String}
    (hmem : .relation direction table target ∈ atoms) :
    final.lookup (direction, table, target) = final'.lookup (direction, table, target) := by
  obtain ⟨hlooked, hall⟩ := lookedUp_of_resolveRelations RelationChecks.lookedUp_nil hok
  obtain ⟨hlooked', hall'⟩ := lookedUp_of_resolveRelations RelationChecks.lookedUp_nil hok'
  obtain ⟨check, hcheck⟩ := Option.isSome_iff_exists.mp (hall direction target hmem)
  obtain ⟨check', hcheck'⟩ := Option.isSome_iff_exists.mp
    (hall' direction target (h.mem_iff.mp hmem))
  have heq := (hlooked _ _ _ _ hcheck).symm.trans (hlooked' _ _ _ _ hcheck')
  rw [hcheck, hcheck', Except.ok.inj heq]

end Relations

/-! ### The test -/

section Test

variable {scope : CompileScope} {e e' : Expression} {relations : RelationChecks}

/-- Relations that are known alike make the same test. -/
theorem compile_congr_relations
    (h : ∀ direction source target, .relation direction source target ∈ e.atoms →
      relations.lookup (direction, source, target) =
        scope.relations.lookup (direction, source, target)) :
    compile { scope with relations } e = compile scope e := by
  induction e with
  | and l r ihl ihr | or l r ihl ihr =>
    rw [compile, compile, ihl fun _ _ _ hmem => h _ _ _ (List.mem_append_left _ hmem),
      ihr fun _ _ _ hmem => h _ _ _ (List.mem_append_right _ hmem)]
  | not e ih => rw [compile, compile, ih h]
  | atom a =>
    cases a with
    | condition table columns literal => cases literal <;> rfl
    | relation direction source target =>
      simp only [compile, compileAtom, h _ _ _ (List.mem_singleton_self _)]
    | never => rfl

/-- The connective on tests of rows. -/
def Connective.joinTests (c : Connective) (l r : RowTest) : RowTest :=
  fun row => c.holds (l row) (r row)

theorem toOption_compile_join (scope : CompileScope) (c : Connective) (l r : Expression) :
    (compile scope (c.join l r)).toOption =
      Option.map₂ c.joinTests (compile scope l).toOption (compile scope r).toOption := by
  cases c <;> rw [Connective.join, compile] <;>
    cases compile scope l <;> cases compile scope r <;> rfl

theorem toOption_compile_not (scope : CompileScope) (e : Expression) :
    (compile scope (.not e)).toOption =
      (compile scope e).toOption.map fun test row => !test row := by
  rw [compile]
  cases compile scope e <;> rfl

/-- **The test does not depend on the order of operands**, but for the error. -/
theorem toOption_compile_rearranged (h : e.Rearranged e') (scope : CompileScope) :
    (compile scope e).toOption = (compile scope e').toOption := by
  have hcomm (c : Connective) (l r : RowTest) : c.joinTests l r = c.joinTests r l :=
    funext fun row => c.holds_comm ..
  have hassoc (c : Connective) (l r t : RowTest) :
      c.joinTests (c.joinTests l r) t = c.joinTests l (c.joinTests r t) :=
    funext fun row => c.holds_assoc ..
  exact h.apply_eq (fun e => (compile scope e).toOption) (fun c => Option.map₂ c.joinTests)
    (fun c _ _ => Option.map₂_comm (hcomm c)) (fun c _ _ _ => Option.map₂_assoc (hassoc c))
    (toOption_compile_join scope) _ (toOption_compile_not scope)

end Test

/-! ### The statement -/

/-- What a computation comes to, whatever error it may end with. -/
theorem Fetching.toOption_outcome_bind {α β : Type} (t : Fetching α) (f : α → Fetching β)
    (source : FetchCall → FetchAnswer) :
    ((t >>= f).outcome source).toOption =
      (t.outcome source).toOption.bind fun a => ((f a).outcome source).toOption := by
  rw [outcome_bind, except_toOption_bind]

namespace Executor

variable {x : Executor} {allowed : Option (List String)} {context : Context} {s : Statement}
variable {e : Expression} {source : FetchCall → FetchAnswer}

section Finish

variable {c : Candidates} {relations : RelationChecks} (h : s.expression.Rearranged e)
  (hrelations : ∀ direction source target, .relation direction source target ∈ s.expression.atoms →
    relations.lookup (direction, source, target) =
      c.relations.lookup (direction, source, target))

include h hrelations

theorem toOption_acceptedRows (frame : Option LoopFrame) :
    (x.acceptedRows { s with expression := e } { c with relations } context frame).toOption =
      (x.acceptedRows s c context frame).toOption := by
  let scope : CompileScope := ⟨c.table, context, frame, c.relations, x.options.emptyMeansAll⟩
  have htest : (compile { scope with relations } e).toOption =
      (compile scope s.expression).toOption := by
    rw [← toOption_compile_rearranged h, compile_congr_relations hrelations]
  rw [acceptedRows, acceptedRows, except_toOption_bind, except_toOption_bind]
  exact congrArg (Option.bind · _) htest

theorem toOption_joinElements (name key : String) (index : Nat) (elements : List Json) :
    ((x.joinElements allowed { s with expression := e } { c with relations } context name key
        index elements).outcome source).toOption =
      ((x.joinElements allowed s c context name key index elements).outcome source).toOption := by
  induction elements generalizing index with
  | nil => rfl
  | cons element rest ih =>
    cases element with
    | obj fields =>
      simp only [joinElements, Fetching.toOption_outcome_bind, Fetching.outcome_lift,
        toOption_acceptedRows h hrelations, ih]
      rfl
    | null | bool | num | str | arr => rfl

/-- What follows the lookups does not depend on the order of operands, but for the
error. -/
theorem toOption_finish :
    ((x.finish allowed context { s with expression := e } { c with relations }).outcome
        source).toOption =
      ((x.finish allowed context s c).outcome source).toOption := by
  have hname : ({ s with expression := e } : Statement).name = s.name := rfl
  have hkey : ({ s with expression := e } : Statement).targetKey = s.targetKey := rfl
  unfold finish
  rw [hname, hkey]
  split
  · simp only [join, Fetching.toOption_outcome_bind, toOption_joinElements h hrelations]
  · simp only [evaluate, Fetching.toOption_outcome_bind, Fetching.outcome_lift,
      toOption_acceptedRows h hrelations]
    rfl

end Finish

/-- What follows the request does not depend on the order of operands, but for the error. -/
theorem toOption_behind_request (h : s.expression.Rearranged e) {t : Table}
    (hnames : s.expression.NamesOnly t.name) (scope : Scope) (columns : RequiredColumns)
    (rows : List Row) :
    ((resolveRelations scope t.name rows e.atoms [] >>= fun relations =>
        x.finish allowed context { s with expression := e } ⟨t, columns, rows, relations⟩).outcome
        source).toOption =
      ((resolveRelations scope t.name rows s.expression.atoms [] >>= fun relations =>
        x.finish allowed context s ⟨t, columns, rows, relations⟩).outcome source).toOption := by
  rw [Fetching.toOption_outcome_bind, Fetching.toOption_outcome_bind]
  cases hok : (resolveRelations scope t.name rows s.expression.atoms []).outcome source with
  | ok relations =>
    obtain ⟨relations', hok'⟩ := exists_resolveRelations_of_perm h.perm_atoms hok
    have hrelations : ∀ direction source target,
        .relation direction source target ∈ s.expression.atoms →
          relations'.lookup (direction, source, target) =
            relations.lookup (direction, source, target) := by
      intro direction source target hmem
      obtain rfl := hnames _ hmem source rfl
      exact (lookup_eq_of_perm h.perm_atoms hok hok' hmem).symm
    rw [hok']
    exact toOption_finish (c := ⟨t, columns, rows, relations⟩) h hrelations
  | error error =>
    cases hok' : (resolveRelations scope t.name rows e.atoms []).outcome source with
    | error error' => rfl
    | ok relations' =>
      obtain ⟨relations, hback⟩ := exists_resolveRelations_of_perm h.perm_atoms.symm hok'
      cases hok.symm.trans hback

variable {table : String}

/-- **A statement comes to the same whatever the order of operands**, unless a search is
unsupported: with the operands in another order it has the same result, and none where it
had none. -/
theorem toOption_outcome_rearranged (h : s.expression.Rearranged e)
    (hnames : s.expression.NamesOnly table) (store : Store) :
    let r := (x.runStatement allowed context s).outcome store.fetch
    let r' := (x.runStatement allowed context { s with expression := e }).outcome store.fetch
    r'.toOption = r.toOption ∨
      (∃ column mode, r = .error (.unsupportedSearch table column mode)) ∨
      ∃ column mode, r' = .error (.unsupportedSearch table column mode) := by
  intro r r'
  have hplans : (x.plan allowed { s with expression := e }).toOption =
      (x.plan allowed s).toOption := toOption_plan h hnames
  cases hplan : x.plan allowed s with
  | error error =>
    cases hplan' : x.plan allowed { s with expression := e } with
    | error error' =>
      refine Or.inl ?_
      simp only [r, r', runStatement_of_plan_error hplan, runStatement_of_plan_error hplan']
      rfl
    | ok planned =>
      rw [hplan, hplan'] at hplans
      cases hplans
  | ok planned =>
    obtain ⟨t, columns⟩ := planned
    have hplan' : x.plan allowed { s with expression := e } = .ok (t, columns) :=
      except_toOption_eq_some.mp (hplans.trans (except_toOption_eq_some.mpr hplan))
    obtain ⟨a, ha, hname⟩ := List.exists_of_findSome?_eq_some (planned_of_plan hplan).target
    obtain rfl := hnames a ha t.name hname
    have hr : r = _ := congrArg (Fetching.outcome · store.fetch) (runStatement_of_plan hplan)
    have hr' : r' = _ := congrArg (Fetching.outcome · store.fetch) (runStatement_of_plan hplan')
    rw [Fetching.outcome_fetch] at hr hr'
    cases hrows : store.rows? t.name with
    | none =>
      -- the table is missing, whatever the filter
      rw [Store.fetch_of_no_rows hrows] at hr hr'
      rw [hr, hr']
      exact Or.inl rfl
    | some rows =>
      have hfetch : store.fetch (rowsCall s t columns) = _ := Store.fetch_of_rows? hrows
      have hfetch' : store.fetch (rowsCall { s with expression := e } t columns) = _ :=
        Store.fetch_of_rows? hrows
      rw [hfetch] at hr
      rw [hfetch'] at hr'
      -- a search may be reached, and be unsupported, in one of the two orders only
      rcases Store.select_cases (rowsCall s t columns) rows with ⟨column, mode, herror⟩ | hok
      · rw [herror] at hr
        exact Or.inr (Or.inl ⟨column, mode, hr⟩)
      rcases Store.select_cases (rowsCall { s with expression := e } t columns) rows with
        ⟨column, mode, herror⟩ | hok'
      · rw [herror] at hr'
        exact Or.inr (Or.inr ⟨column, mode, hr'⟩)
      have hanswers := Store.fetch_rearranged h (hfetch.trans hok) (hfetch'.trans hok')
      rw [hok] at hr
      rw [hok', ← hanswers] at hr'
      rw [hr, hr']
      exact Or.inl (toOption_behind_request h hnames _ columns _)

/-- **The order of operands does not matter.** Under any catalog, policy, options and
variables, and over any tables in memory, let a statement name one table only, and let
another one differ from it in the order and grouping of operands under connectives. If
both succeed, they have the same result and are kept as the same variable, with the same
rows in the same order. If only one of them does, the other one has failed with a search
that the store does not support. -/
theorem outcome_rearranged (x : Executor) (allowed : Option (List String)) (context : Context)
    (store : Store) (s : Statement) (e : Expression) (table : String)
    (h : s.expression.Rearranged e) (hnames : s.expression.NamesOnly table) :
    let r := (x.runStatement allowed context s).outcome store.fetch
    let r' := (x.runStatement allowed context { s with expression := e }).outcome store.fetch
    (∀ v v', r = .ok v → r' = .ok v' → v = v') ∧
      (∀ v error, r = .ok v → r' = .error error →
        ∃ column mode, error = .unsupportedSearch table column mode) ∧
      ∀ v error, r = .error error → r' = .ok v →
        ∃ column mode, error = .unsupportedSearch table column mode := by
  intro r r'
  have hcases : r'.toOption = r.toOption ∨
      (∃ column mode, r = .error (.unsupportedSearch table column mode)) ∨
        ∃ column mode, r' = .error (.unsupportedSearch table column mode) :=
    toOption_outcome_rearranged h hnames store
  clear_value r r'
  rcases hcases with hsame | ⟨column, mode, rfl⟩ | ⟨column, mode, rfl⟩
  · cases r <;> cases r' <;> simp_all [Except.toOption]
  · cases r' <;> simp
  · cases r <;> simp

/-- The post with a certain identifier, if its title speaks of one of two languages. -/
def languagePost : Statement where
  expression := .and
    (.or (.atom (.condition "posts" (some ["title"]) (.text "lean" false .contains)))
      (.atom (.condition "posts" (some ["title"]) (.text "rust" false .contains))))
    (.atom (.condition "posts" (some ["id"]) (.text "7" false .contains)))
  projection := .columns ["id", "title"]

/-- The same with its operands swapped, those of the conjunction and those in it. -/
def languagePostSwapped : Expression := .and
  (.atom (.condition "posts" (some ["id"]) (.text "7" false .contains)))
  (.or (.atom (.condition "posts" (some ["title"]) (.text "rust" false .contains)))
    (.atom (.condition "posts" (some ["title"]) (.text "lean" false .contains))))

/-- With the identifier in front, a store that stops at the first test that fails does not
search the title of the other post, which is no text. -/
theorem outcome_rearranged_languagePost :
    let x : Executor := ⟨.blog, ⟨[("posts", .all)]⟩, .builtin, {}⟩
    let found : Row := [("id", .ofNat 7), ("title", .str "On Lean")]
    let strange : Row := [("id", .ofNat 8), ("title", .ofNat 5)]
    let run (rows : List Row) (e : Expression) :=
      (x.runStatement none [] { languagePost with expression := e }).outcome
        (Store.fetch ⟨[("posts", rows)]⟩)
    languagePost.expression.Rearranged languagePostSwapped ∧
      languagePost.expression.NamesOnly "posts" ∧
      (∃ v, run [found] languagePost.expression = .ok v ∧
        run [found] languagePostSwapped = .ok v ∧ v.1 = .arr [.obj found]) ∧
      ∃ v column mode, run [found, strange] languagePostSwapped = .ok v ∧
        run [found, strange] languagePost.expression =
          .error (.unsupportedSearch "posts" column mode) := by
  intro x found strange run
  have hrearranged : languagePost.expression.Rearranged languagePostSwapped :=
    .trans (.swap .and _ _) (.join .and (.refl _) (.swap .or _ _))
  have hnames : languagePost.expression.NamesOnly "posts" := by decide
  let ids : Variable :=
    { values := [.obj found], columns := some ["id", "title"], ids := some [.ofNat 7]
      table := some "posts" }
  have hrun (rows : List Row) := outcome_rearranged x none [] ⟨[("posts", rows)]⟩ languagePost
    languagePostSwapped "posts" hrearranged hnames
  refine ⟨hrearranged, hnames, ?_, ?_⟩
  · obtain ⟨hsame, -⟩ := hrun [found]
    have hok : run [found] languagePost.expression = .ok (.arr [.obj found], ids) := by
      decide +kernel
    have hok' : (run [found] languagePostSwapped).toOption.isSome = true := by decide +kernel
    obtain ⟨v, hv⟩ := Option.isSome_iff_exists.mp hok'
    have hv := except_toOption_eq_some.mp hv
    obtain rfl := hsame _ v hok hv
    exact ⟨_, hok, hv, rfl⟩
  · obtain ⟨-, -, hfails⟩ := hrun [found, strange]
    have hok' : run [found, strange] languagePostSwapped = .ok (.arr [.obj found], ids) := by
      decide +kernel
    have herror : (run [found, strange] languagePost.expression).toOption = none := by
      decide +kernel
    cases hrun : run [found, strange] languagePost.expression with
    | ok v =>
      rw [hrun] at herror
      cases herror
    | error error =>
      obtain ⟨column, mode, rfl⟩ := hfails _ error hrun hok'
      exact ⟨_, column, mode, hok', rfl⟩

end Executor

end TableQuery
