import Mathlib.Control.Monad.Basic
import TableQuery.Proofs.Access.Confinement
import TableQuery.Proofs.Batch.Steps

/-!
# References to variables

When a batch succeeds, what its statements refer to is there: each variable was bound
by an earlier statement, and a reference to the element of a loop stands in the loop
over that variable (`TableQuery.Executor.resolves_of_run`). A reference is looked up
when the expression around it is compiled, both sides of every connective, whether
there are rows to test or not.

There is one exception. A join compiles its expression once for each element of its
variable, so over a variable without values it compiles nothing, and a reference in it
may be to a variable that no statement binds (`TableQuery.Executor.not_resolves_of_run`).
-/

namespace TableQuery

/-! ### What it means that a reference is in order -/

namespace Statement

/-- The statement keeps its result under the name. As the latest result it is kept
always. -/
def Binds (s : Statement) (name : String) : Prop :=
  s.name = some name ∨ name = latestName

/-- The statement has the reference in a condition on its target table. -/
def Refers (s : Statement) (name : String) (key : Option String) (mode : VariableMode) : Prop :=
  ∃ table columns, s.expression.firstTable? = some table ∧
    .condition table columns (.variableRef name key mode) ∈ s.expression.atoms

/-- A reference of the statement is in order behind the earlier ones: one of them has
bound the variable, and the element of a loop is referred to in the loop over its
variable. -/
def Resolves (s : Statement) (earlier : List Statement) (name : String) (mode : VariableMode) :
    Prop :=
  (∃ b ∈ earlier, b.Binds name) ∧
    (mode = .one → s.name = some name ∧ s.targetKey.isSome = true)

end Statement

/-- The statement is a join over a variable that has no values. -/
def Statement.JoinsNothing (s : Statement) (context : Context) : Prop :=
  ∃ name v, s.name = some name ∧ s.targetKey.isSome = true ∧ context.get? name = some v ∧
    v.values = []

/-! ### Compiled references -/

theorem Context.require_eq_ok {c : Context} {name : String} {v : Variable} :
    c.require name = .ok v ↔ c.get? name = some v := by
  rw [require]
  cases Fields.get? c name <;> simp

/-- Where an expression compiles, all its atoms do. -/
theorem compileAtom_of_compile {scope : CompileScope} {e : Expression} {test : RowTest}
    (h : compile scope e = .ok test) : ∀ a ∈ e.atoms, ∃ t, compileAtom scope a = .ok t := by
  induction e generalizing test with
  | and l r ihl ihr | or l r ihl ihr =>
    obtain ⟨testl, hl, h⟩ := except_bind_eq_ok.mp h
    obtain ⟨testr, hr, -⟩ := except_bind_eq_ok.mp h
    intro a ha
    rcases List.mem_append.mp ha with ha | ha
    · exact ihl hl a ha
    · exact ihr hr a ha
  | not e ih =>
    obtain ⟨teste, he, -⟩ := except_bind_eq_ok.mp h
    exact ih he
  | atom a =>
    intro b hb
    obtain rfl := List.mem_singleton.mp hb
    exact ⟨test, h⟩

/-- A reference that compiles is to a variable that is bound, or to the element of the
loop at hand. -/
theorem found_of_compileVariable {scope : CompileScope} {name : String} {key : Option String}
    {mode : VariableMode} {test : Option CellTest}
    (h : compileVariable scope name key mode = .ok test) :
    if mode = .one then ∃ f, scope.frame = some f ∧ f.name = name
    else (scope.context.get? name).isSome = true := by
  cases mode with
  | one =>
    rw [compileVariable] at h
    split at h
    · cases h
    · rename_i f hf
      obtain ⟨hframe, hname⟩ := Option.filter_eq_some_iff.mp hf
      exact ⟨f, hframe, by simpa using hname⟩
  | any | all =>
    obtain ⟨v, hv, -⟩ := except_bind_eq_ok.mp h
    simp [Context.require_eq_ok.mp hv]

theorem found_of_compile {scope : CompileScope} {e : Expression} {test : RowTest}
    (h : compile scope e = .ok test) {columns : Option (List String)} {name : String}
    {key : Option String} {mode : VariableMode}
    (hatom : .condition scope.table.name columns (.variableRef name key mode) ∈ e.atoms) :
    if mode = .one then ∃ f, scope.frame = some f ∧ f.name = name
    else (scope.context.get? name).isSome = true := by
  obtain ⟨t, ht⟩ := compileAtom_of_compile h _ hatom
  simp only [compileAtom, bne_self_eq_false, Bool.false_eq_true, if_false] at ht
  obtain ⟨cs, -, ht⟩ := except_bind_eq_ok.mp ht
  obtain ⟨found, hfound, -⟩ := except_bind_eq_ok.mp ht
  exact found_of_compileVariable hfound

/-! ### What is bound behind a part of a batch -/

theorem Context.get?_bind (c : Context) (name : Option String) (v : Variable) (other : String) :
    (c.bind name v).get? other =
      if name = some other ∨ other = latestName then some v else c.get? other := by
  cases name with
  | none => simp [bind, Fields.get?_insert]
  | some name =>
    simp only [bind, Fields.get?_insert, Option.some.injEq]
    by_cases hlatest : other = latestName
    · simp [hlatest]
    · simp [hlatest, eq_comm]

namespace Executor

variable {x : Executor} {allowed : Option (List String)} {source : FetchCall → FetchAnswer}

/-- Behind some statements no variables are bound but those they bind. -/
theorem binds_of_runFrom {statements : List Statement} {out final : Output}
    (h : (x.runFrom allowed statements out).outcome source = .ok final) {name : String}
    (hbound : (final.context.get? name).isSome = true) :
    (out.context.get? name).isSome = true ∨ ∃ b ∈ statements, b.Binds name := by
  induction statements generalizing out with
  | nil =>
    obtain rfl := Except.ok.inj h
    exact Or.inl hbound
  | cons s rest ih =>
    have later : (∃ b ∈ rest, b.Binds name) → ∃ b ∈ s :: rest, b.Binds name :=
      fun ⟨b, hb, hbinds⟩ => ⟨b, List.mem_cons_of_mem _ hb, hbinds⟩
    rcases outcome_runFrom_cons_eq_ok.mp h with ⟨result, -, hrest⟩ | ⟨e, -, -, hrest⟩
    · rcases ih hrest with hout | hlater
      · by_cases hs : s.Binds name
        · exact Or.inr ⟨s, List.mem_cons_self .., hs⟩
        · have hkeeps : ¬(s.name = some name ∨ name = latestName) := hs
          rw [Output.record, Context.get?_bind, if_neg hkeeps] at hout
          exact Or.inl hout
      · exact Or.inr (later hlater)
    · exact (ih hrest).imp_right later

/-! ### Statements that succeed -/

theorem compiles_of_acceptedRows {s : Statement} {c : Candidates} {context : Context}
    {frame : Option LoopFrame} {rows : List Row}
    (h : x.acceptedRows s c context frame = .ok rows) :
    ∃ test, compile ⟨c.table, context, frame, c.relations, x.options.emptyMeansAll⟩
      s.expression = .ok test := by
  obtain ⟨test, htest, -⟩ := except_bind_eq_ok.mp h
  exact ⟨test, htest⟩

/-- A join that succeeds has compiled its expression for its first element, if there is
one. -/
theorem compiles_of_joinElements {s : Statement} {c : Candidates} {context : Context}
    {name key : String} {index : Nat} {element : Json} {rest joined : List Json}
    (h : (x.joinElements allowed s c context name key index (element :: rest)).outcome source =
      .ok joined) :
    ∃ test, compile ⟨c.table, context, some ⟨name, element⟩, c.relations,
      x.options.emptyMeansAll⟩ s.expression = .ok test := by
  cases element with
  | obj fields =>
    obtain ⟨rows, hrows, -⟩ := Fetching.outcome_lift_bind_eq_ok.mp h
    exact compiles_of_acceptedRows hrows
  | null | bool | num | str | arr => cases h

/-- **A statement that succeeds has compiled its expression**, in the loop over its own
variable if it is a join, unless it is a join over a variable without values. -/
theorem compiles_of_statementOutcome {out : Output} {s : Statement} {result : Json × Variable}
    (h : x.statementOutcome allowed source out s = .ok result) :
    s.JoinsNothing out.context ∨
      ∃ scope test, compile scope s.expression = .ok test ∧ scope.context = out.context ∧
        s.expression.firstTable? = some scope.table.name ∧
        ∀ f, scope.frame = some f → s.name = some f.name ∧ s.targetKey.isSome = true ∧
          (out.context.get? f.name).isSome = true := by
  obtain ⟨c, hc, h⟩ := Fetching.outcome_bind_eq_ok.mp h
  have htarget : s.expression.firstTable? = some c.table.name :=
    (planned_of_plan (outcome_candidates_eq_ok.mp hc).1).target
  split at h
  · rename_i name key hname hkey
    obtain ⟨v, hv, h⟩ := Fetching.outcome_lift_bind_eq_ok.mp h
    obtain ⟨joined, hjoined, -⟩ := Fetching.outcome_bind_eq_ok.mp h
    have hbound := Context.require_eq_ok.mp hv
    cases hvalues : v.values with
    | nil => exact Or.inl ⟨name, v, hname, by simp [hkey], hbound, hvalues⟩
    | cons element rest =>
      rw [hvalues] at hjoined
      obtain ⟨test, htest⟩ := compiles_of_joinElements hjoined
      refine Or.inr ⟨_, test, htest, rfl, htarget, ?_⟩
      rintro f ⟨⟩
      exact ⟨hname, by simp [hkey], by simp [hbound]⟩
  · obtain ⟨rows, hrows, -⟩ := Fetching.outcome_lift_bind_eq_ok.mp h
    obtain ⟨test, htest⟩ := compiles_of_acceptedRows hrows
    refine Or.inr ⟨_, test, htest, rfl, htarget, ?_⟩
    rintro f ⟨⟩

/-! ### Batches that succeed -/

/-- **A successful batch has resolved its references.** Every reference in a condition on
the target table of a statement is in order, whatever the source holds: its variable was
bound by an earlier statement, and where it is to the element of a loop, the statement is
the join over that variable. Only a join may have others, when its variable has no values
at that point. -/
theorem resolves_of_run (catalog : Catalog) (whitelist : Whitelist) (registry : Registry)
    (emptyMeansAll : Bool) (allowed : Option (List String)) (statements : List Statement)
    (source : FetchCall → FetchAnswer) (out : Output) :
    let x : Executor := ⟨catalog, whitelist, registry, ⟨.failFast, emptyMeansAll⟩⟩
    (x.run statements allowed).outcome source = .ok out →
      ∀ earlier s later, statements = earlier ++ s :: later →
        (∀ name key mode, s.Refers name key mode → s.Resolves earlier name mode) ∨
          ∃ before, (x.run earlier allowed).outcome source = .ok before ∧
            s.JoinsNothing before.context := by
  rintro x hrun earlier s later rfl
  obtain ⟨before, hbefore, hrest⟩ := outcome_run_append_eq_ok.mp hrun
  have hsucceeds : ∃ result, x.statementOutcome allowed source before s = .ok result := by
    rcases outcome_runFrom_cons_eq_ok.mp hrest with ⟨result, hs, -⟩ | ⟨e, -, hskips, -⟩
    · exact ⟨result, hs⟩
    · cases hskips
  obtain ⟨result, hs⟩ := hsucceeds
  have hbinds : ∀ name, (before.context.get? name).isSome = true →
      ∃ b ∈ earlier, b.Binds name := fun name hbound =>
    (binds_of_runFrom hbefore hbound).resolve_left (by simp)
  rcases compiles_of_statementOutcome hs with
    hnothing | ⟨scope, test, htest, hcontext, htarget, hframe⟩
  · exact Or.inr ⟨before, hbefore, hnothing⟩
  · refine Or.inl ?_
    rintro name key mode ⟨table, columns, htable, hatom⟩
    obtain rfl : scope.table.name = table := Option.some.inj (htarget.symm.trans htable)
    have hfound := found_of_compile htest hatom
    split at hfound
    · obtain ⟨f, hf, rfl⟩ := hfound
      obtain ⟨hname, hkey, hbound⟩ := hframe f hf
      exact ⟨hbinds _ hbound, fun _ => ⟨hname, hkey⟩⟩
    · rw [hcontext] at hfound
      exact ⟨hbinds _ hfound, fun hone => absurd hone ‹_›⟩

/-- One post. -/
def onePost : Store where
  tables := [("posts", [[("id", .ofNat 7), ("title", .str "On Lean")]])]

/-- The posts; to each of them the posts of the same id; and the posts among these. -/
def joinedPosts : List Statement := [
  { name := some "seen"
    expression := .atom (.condition "posts" (some ["title"]) .notEmpty)
    projection := .columns ["id"] },
  { name := some "seen"
    targetKey := some "same"
    expression := .atom (.condition "posts" (some ["id"])
      (.variableRef "seen" (some "id") .one)) },
  { expression := .atom (.condition "posts" (some ["id"])
      (.variableRef "_prev" (some "id") .any)) }]

/-- Every statement of a successful batch has its references resolved, or joins nothing. -/
theorem resolves_of_run_joinedPosts :
    let x : Executor := ⟨.blog, { grants := [("posts", .all)] }, .builtin, ⟨.failFast, false⟩⟩
    ∃ out, (x.run joinedPosts none).outcome onePost.fetch = .ok out ∧
      ∀ earlier s later, joinedPosts = earlier ++ s :: later →
        (∀ name key mode, s.Refers name key mode → s.Resolves earlier name mode) ∨
          ∃ before, (x.run earlier none).outcome onePost.fetch = .ok before ∧
            s.JoinsNothing before.context := by
  intro x
  let first : Json := .obj [("id", .ofNat 7), ("same", .arr [.ofNat 7])]
  let seen : Variable :=
    { values := [first], columns := some ["id"], ids := some [.ofNat 7], table := some "posts" }
  let last : Variable := { values := [.ofNat 7], column := some "id", table := some "posts" }
  let out : Output :=
    ⟨[("_prev", last), ("seen", seen)], [("result", .arr [.ofNat 7]), ("seen", .arr [first])]⟩
  have hrun : (x.run joinedPosts none).outcome onePost.fetch = .ok out := by decide +kernel
  exact ⟨out, hrun, resolves_of_run .blog _ .builtin false none joinedPosts onePost.fetch out hrun⟩

/-- No post with a certain title, and to each of them the posts that are among the values
of a variable that nobody has bound. -/
def joinedNothing : List Statement := [
  { name := some "found"
    expression := .atom (.condition "posts" (some ["title"]) (.text "zzz" false .contains))
    projection := .columns ["id", "title"] },
  { name := some "found"
    targetKey := some "more"
    expression := .atom (.condition "posts" (some ["id"]) (.variableRef "nobody" none .any)) }]

/-- **A join over nothing may refer to what is not there**: the batch succeeds, although
one of its statements refers to a variable that no earlier statement has bound. -/
theorem not_resolves_of_run :
    let x : Executor := ⟨.blog, { grants := [("posts", .all)] }, .builtin, ⟨.failFast, false⟩⟩
    let found : Variable :=
      { values := [], columns := some ["id", "title"], ids := some [], table := some "posts" }
    (x.run joinedNothing none).outcome onePost.fetch =
        .ok ⟨[("_prev", found), ("found", found)], [("found", .arr [])]⟩ ∧
      joinedNothing = [joinedNothing[0]] ++ joinedNothing[1] :: [] ∧
      joinedNothing[1].Refers "nobody" none .any ∧
      ¬joinedNothing[1].Resolves [joinedNothing[0]] "nobody" .any := by
  intro x found
  refine ⟨by decide +kernel, rfl, ⟨"posts", some ["id"], rfl, List.mem_singleton_self _⟩, ?_⟩
  rintro ⟨⟨b, hb, hbinds⟩, -⟩
  obtain rfl := List.mem_singleton.mp hb
  rcases hbinds with hname | hlatest
  · exact absurd hname (by decide)
  · exact absurd hlatest (by decide)

end Executor

end TableQuery
