import TableQuery.Proofs.Access.Confinement
import TableQuery.Proofs.Cache.Keys

/-!
# Allowed tables are a set

A caller lists the tables it is allowed. How it lists them – in which order, and some of them
twice – makes no difference to what a batch does: not to its result, and not to the requests it
makes on the way (`TableQuery.Executor.run_congr`). The list is read by
`TableQuery.checkAllowed` only, so this is shown for each place with such a check, and carried on
from there.
-/

namespace TableQuery

variable {a b : Option (List String)}

theorem checkAllowed_congr (h : SameTables a b) (table : String) :
    checkAllowed table a = checkAllowed table b := by
  cases h with
  | none => rfl
  | some h => simp only [checkAllowed, List.contains_eq_mem, h table]

/-! ### Relations -/

theorem resolveRelation_congr (h : SameTables a b) (catalog : Catalog) (whitelist : Whitelist)
    (rows : List Row) (direction : Direction) (source target : String) :
    resolveRelation ⟨catalog, whitelist, a⟩ rows direction source target =
      resolveRelation ⟨catalog, whitelist, b⟩ rows direction source target := by
  simp only [resolveRelation, checkAllowed_congr h]

theorem resolveRelations_congr (h : SameTables a b) (catalog : Catalog) (whitelist : Whitelist)
    (table : String) (rows : List Row) (atoms : List Atom) (checks : RelationChecks) :
    resolveRelations ⟨catalog, whitelist, a⟩ table rows atoms checks =
      resolveRelations ⟨catalog, whitelist, b⟩ table rows atoms checks := by
  induction atoms generalizing checks with
  | nil => rfl
  | cons atom rest ih =>
    cases atom with
    | condition => exact ih checks
    | never => exact ih checks
    | relation direction source target =>
      simp only [resolveRelations, resolveRelation_congr h, ih]

/-! ### Stages -/

/-- The stage does the same however the allowed tables are listed. -/
def Stage.IgnoresListing (stage : Stage) : Prop :=
  ∀ (catalog : Catalog) (whitelist : Whitelist) {a b : Option (List String)}, SameTables a b →
    stage.run ⟨catalog, whitelist, a⟩ = stage.run ⟨catalog, whitelist, b⟩

/-- **All built-in stages ignore the listing**: the only one that is concerned with tables
checks its table against the list. -/
theorem Builtin.ignoresListing_of_mem_all : ∀ stage ∈ all, stage.IgnoresListing := by
  intro stage hstage catalog whitelist a b h
  simp only [all, List.mem_cons, List.not_mem_nil, or_false] at hstage
  -- all stages but the last make nothing of the scope
  rcases hstage with rfl | rfl | rfl | rfl | rfl | rfl | rfl | rfl
  case inr.inr.inr.inr.inr.inr.inr =>
    funext args input
    simp only [load, loadItems, fetchRows, checkAllowed_congr h]
  all_goals rfl

namespace Registry

variable {r : Registry} (hr : ∀ e ∈ r.stages, e.2.IgnoresListing)

include hr in
theorem runCalls_congr (h : SameTables a b) (catalog : Catalog) (whitelist : Whitelist)
    (calls : List StageCall) (value : Json) :
    r.runCalls ⟨catalog, whitelist, a⟩ calls value =
      r.runCalls ⟨catalog, whitelist, b⟩ calls value := by
  induction calls generalizing value with
  | nil => rfl
  | cons call rest ih =>
    cases hstage : r.resolve call.name with
    | error e => simp only [runCalls, hstage, Fetching.lift_error, Fetching.failed_bind]
    | ok stage =>
      obtain ⟨e, he, rfl⟩ := mem_stages_of_resolve hstage
      have hrun := hr e he catalog whitelist h
      simp only [runCalls, hstage, Fetching.lift_ok, Fetching.done_bind, hrun, ih]

include hr in
theorem runPipeline_congr (h : SameTables a b) (catalog : Catalog) (whitelist : Whitelist)
    (calls : List StageCall) (initial : Shape) (value : Json) :
    r.runPipeline ⟨catalog, whitelist, a⟩ calls initial value =
      r.runPipeline ⟨catalog, whitelist, b⟩ calls initial value := by
  simp only [runPipeline, runCalls_congr hr h]

end Registry

/-! ### Batches -/

namespace Executor

variable {x : Executor} (hr : ∀ e ∈ x.registry.stages, e.2.IgnoresListing)

theorem candidates_congr (h : SameTables a b) (s : Statement) :
    x.candidates a s = x.candidates b s := by
  simp only [candidates, plan, checkAllowed_congr h, resolveRelations_congr h]

include hr in
theorem runStages_congr (h : SameTables a b) (s : Statement) (value : Json) :
    x.runStages a s value = x.runStages b s value :=
  Registry.runPipeline_congr hr h ..

include hr in
theorem joinElements_listing_congr (h : SameTables a b) (s : Statement) (c : Candidates)
    (context : Context) (name key : String) (index : Nat) (elements : List Json) :
    x.joinElements a s c context name key index elements =
      x.joinElements b s c context name key index elements := by
  induction elements generalizing index with
  | nil => rfl
  | cons element rest ih =>
    cases element with
    | obj fields => simp only [joinElements, runStages_congr hr h, ih]
    | null | bool | num | str | arr => rfl

include hr in
theorem runStatement_congr (h : SameTables a b) (context : Context) (s : Statement) :
    x.runStatement a context s = x.runStatement b context s := by
  simp only [runStatement, candidates_congr h, join, joinElements_listing_congr hr h, evaluate,
    runStages_congr hr h]

include hr in
theorem runFrom_congr (h : SameTables a b) (statements : List Statement) (out : Output) :
    x.runFrom a statements out = x.runFrom b statements out := by
  induction statements generalizing out with
  | nil => rfl
  | cons s rest ih => simp only [runFrom, runStatement_congr hr h, ih]

include hr in
/-- **A batch does the same** for all callers who are allowed the same tables. -/
theorem run_congr (h : SameTables a b) (statements : List Statement) :
    x.run statements a = x.run statements b :=
  runFrom_congr hr h statements {}

end Executor

end TableQuery
