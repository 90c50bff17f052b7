import TableQuery.Execution.Runner
import TableQuery.Proofs.Fetching.Requests
import TableQuery.Stage.Builtin

/-!
# The requests of a batch, part by part

A batch asks a source for rows at three places: for the rows of a statement, for the
remote rows of a relation, and in the stages that a result goes through. What holds of
every request at each of these places (`TableQuery.Executor.EveryPart`) holds of every
request of the batch, whatever the answers are
(`TableQuery.Executor.everyFetch_runFrom_of`). Nothing is said here about what the
property is.
-/

namespace TableQuery

open Fetching (EveryFetch everyFetch_lift_bind)

variable {P : FetchCall → Prop}

/-- What is found behind one more check was found before, or is that check. -/
theorem RelationChecks.of_lookup_append {checks : RelationChecks}
    {key other : Direction × String × String} {check found : RelationCheck}
    (h : (checks ++ [(key, check)]).lookup other = some found) :
    checks.lookup other = some found ∨ other = key ∧ found = check := by
  rw [List.lookup_append] at h
  rcases Option.or_eq_some_iff.mp h with hold | ⟨-, hnew⟩
  · exact Or.inl hold
  · rw [List.lookup_cons] at hnew
    split at hnew
    · rename_i heq
      exact Or.inr ⟨beq_iff_eq.mp heq, (Option.some.inj hnew).symm⟩
    · cases hnew

theorem everyFetch_resolveRelations_of {scope : Scope} {table : String} {rows : List Row}
    {atoms : List Atom}
    (h : ∀ direction source target, .relation direction source target ∈ atoms →
      EveryFetch P (resolveRelation scope rows direction source target))
    (checks : RelationChecks) :
    EveryFetch P (resolveRelations scope table rows atoms checks) := by
  induction atoms generalizing checks with
  | nil => exact .done _
  | cons a rest ih =>
    have hrest := ih fun direction source target hmem =>
      h direction source target (List.mem_cons_of_mem _ hmem)
    cases a with
    | condition => exact hrest checks
    | never => exact hrest checks
    | relation direction source target =>
      unfold resolveRelations
      split
      · exact .bind (h direction source target (List.mem_cons_self ..)) fun check => hrest _
      · exact hrest checks

namespace Builtin

/-- All built-in stages but the one that loads rows make no request. -/
theorem everyFetch_of_ne_load {stage : Stage} (hstage : stage ∈ all)
    (hload : stage ≠ load) (scope : StageScope) (args : Arguments) (input : Json) :
    EveryFetch P (stage.run scope args input) := by
  simp only [all, List.mem_cons, List.not_mem_nil, or_false] at hstage
  rcases hstage with rfl | rfl | rfl | rfl | rfl | rfl | rfl | rfl
  · exact .done _
  · exact everyFetch_lift_bind fun items _ => .done _
  · exact everyFetch_lift_bind fun items _ => .done _
  · exact everyFetch_lift_bind fun items _ => .done _
  · exact everyFetch_lift_bind fun descending _ => everyFetch_lift_bind fun items _ => .done _
  · simp only [limit]
    split
    · exact .failed _
    · exact everyFetch_lift_bind fun items _ => .done _
  · exact everyFetch_lift_bind fun items _ => .done _
  · exact absurd rfl hload

/-- The stage that loads rows makes one request at most: for rows of the table that it is
given, by a key column that is among the columns it asks for. -/
theorem everyFetch_loadItems_of {scope : StageScope} {args : Arguments}
    (h : ∀ table columns key (keys : List Json), args.string? "table" = some table →
      key ∈ columns → EveryFetch P (fetchRows scope
        ⟨table, columns, some (StorageFilter.disj (keys.map fun value => .eq key value))⟩))
    (input : Json) : EveryFetch P (loadItems scope args input) := by
  unfold loadItems
  split
  · exact .failed _
  · rename_i table htable
    refine everyFetch_lift_bind fun t _ => everyFetch_lift_bind fun items _ => ?_
    extract_lets keys
    split
    · exact .done _
    · split
      · exact .failed _
      · extract_lets columns
        split
        · exact .failed _
        · rename_i hkey
          exact .bind (h table columns _ keys htable (by simpa using hkey)) fun rows => .done _

end Builtin

namespace Registry

variable {r : Registry} {scope : StageScope} {calls : List StageCall}

/-- What holds of the requests of each stage, run with the arguments of its call, holds
of those of the pipeline. -/
theorem everyFetch_runPipeline_of
    (h : ∀ call ∈ calls, ∀ stage args, r.resolve call.name = .ok stage →
      stage.signature.bindArguments call.arguments = .ok args →
      ∀ input, EveryFetch P (stage.run scope args input))
    (initial : Shape) (value : Json) :
    EveryFetch P (r.runPipeline scope calls initial value) := by
  have hcalls : ∀ value, EveryFetch P (r.runCalls scope calls value) := by
    induction calls with
    | nil => exact fun _ => .done _
    | cons call rest ih =>
      intro value
      refine everyFetch_lift_bind fun stage hstage => everyFetch_lift_bind fun args hargs => ?_
      refine .bind (h call (List.mem_cons_self ..) stage args hstage hargs value) ?_
      exact ih fun c hc => h c (List.mem_cons_of_mem _ hc)
  unfold runPipeline
  split
  · exact .done _
  · exact everyFetch_lift_bind fun _ _ => hcalls value

end Registry

namespace Executor

variable {x : Executor} {allowed : Option (List String)} {s : Statement}

/-- A statement after its rows have come back and its relations have been looked up. -/
def finish (x : Executor) (allowed : Option (List String)) (context : Context) (s : Statement)
    (c : Candidates) : Fetching (Json × Variable) :=
  match s.name, s.targetKey with
  | some name, some key => x.join allowed s c context name key
  | _, _ => x.evaluate allowed s c context

section Behind

variable (h : ∀ value, EveryFetch P (x.runStages allowed s value))

include h

theorem everyFetch_evaluate_of (c : Candidates) (context : Context) :
    EveryFetch P (x.evaluate allowed s c context) :=
  everyFetch_lift_bind fun _ _ => .bind (h _) fun _ => .done _

theorem everyFetch_joinElements_of (c : Candidates) (context : Context) (name key : String)
    (index : Nat) (elements : List Json) :
    EveryFetch P (x.joinElements allowed s c context name key index elements) := by
  induction elements generalizing index with
  | nil => exact .done _
  | cons element rest ih =>
    cases element with
    | obj fields =>
      refine everyFetch_lift_bind fun rows _ => .bind (h _) fun result => ?_
      exact .bind (ih (index + 1)) fun joined => .done _
    | null | bool | num | str | arr => exact .failed _

/-- With its rows and its relations at hand a statement asks in its stages only, be it a
join or not. -/
theorem everyFetch_finish_of (c : Candidates) (context : Context) :
    EveryFetch P (x.finish allowed context s c) := by
  unfold finish
  split
  · refine everyFetch_lift_bind fun v _ => ?_
    exact .bind (everyFetch_joinElements_of h c context _ _ 0 v.values) fun joined => .done _
  · exact everyFetch_evaluate_of h c context

end Behind

/-- Every request at one of the three places where a statement asks for rows has the
property. -/
structure EveryPart (x : Executor) (allowed : Option (List String)) (P : FetchCall → Prop)
    (s : Statement) : Prop where
  rows : ∀ t columns, x.plan allowed s = .ok (t, columns) →
    P ⟨t.name, columns.names, StorageFilter.ofExpression? t s.expression⟩
  relations : ∀ direction source target, .relation direction source target ∈ s.expression.atoms →
    ∀ rows, EveryFetch P
      (resolveRelation ⟨x.catalog, x.whitelist, allowed⟩ rows direction source target)
  stages : ∀ value, EveryFetch P (x.runStages allowed s value)

namespace EveryPart

variable (h : EveryPart x allowed P s)

include h

theorem candidates : EveryFetch P (x.candidates allowed s) := by
  refine everyFetch_lift_bind fun (table, columns) hplan => ?_
  refine .bind (.request (h.rows table columns hplan)) fun rows => ?_
  exact .bind (everyFetch_resolveRelations_of (fun direction source target hmem =>
    h.relations direction source target hmem rows) _) fun relations => .done _

/-- What holds of the parts of a statement holds of the statement. -/
theorem runStatement (context : Context) : EveryFetch P (x.runStatement allowed context s) :=
  .bind h.candidates fun c => everyFetch_finish_of h.stages c context

end EveryPart

/-- **What holds of every part holds of the batch**, whatever it has found before. -/
theorem everyFetch_runFrom_of {statements : List Statement}
    (h : ∀ s ∈ statements, EveryPart x allowed P s) (out : Output) :
    EveryFetch P (x.runFrom allowed statements out) := by
  induction statements generalizing out with
  | nil => exact .done _
  | cons s rest ih =>
    have hrest := ih fun s hs => h s (List.mem_cons_of_mem _ hs)
    refine .bind ((h s (List.mem_cons_self ..)).runStatement out.context).attempt
      fun outcome => ?_
    split
    · exact hrest _
    · split
      · exact hrest _
      · exact .failed _

end Executor

end TableQuery
