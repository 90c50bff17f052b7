import Mathlib.Control.Monad.Basic
import TableQuery.Proofs.Batch.Steps
import TableQuery.Proofs.Schema.Built
import TableQuery.Stage.Builtin

/-!
# Skipping leaves no trace

A batch that skips its failed statements has the output of the batch without these
statements (`TableQuery.Executor.outcome_run_succeeding`): the same variables and the
same results, whatever the failed statements had done before they failed – fetched
rows, looked relations up, joined some of the elements or gone through some of the
stages.

The two runs are of different batches, and the second has nothing to skip. They are
kept in step by their outputs: behind the statements that succeeded up to some point
the strict run has the output that the lenient one has at that point, so the next
statement finds the same variables in both and does the same.
-/

namespace TableQuery

namespace Executor

variable {x : Executor} {allowed : Option (List String)} {source : FetchCall → FetchAnswer}

/-! ### The two policies -/

/-- The executor with a policy for failed statements. -/
def withPolicy (x : Executor) (policy : ErrorPolicy) : Executor :=
  { x with options := { x.options with statementErrors := policy } }

theorem joinElements_withPolicy (policy : ErrorPolicy) (s : Statement) (c : Candidates)
    (context : Context) (name key : String) (index : Nat) (elements : List Json) :
    (x.withPolicy policy).joinElements allowed s c context name key index elements =
      x.joinElements allowed s c context name key index elements := by
  induction elements generalizing index with
  | nil => rfl
  | cons element rest ih =>
    cases element with
    | obj fields =>
      simp only [joinElements, ih]
      rfl
    | null | bool | num | str | arr => rfl

/-- A statement by itself does the same under every policy. -/
theorem runStatement_withPolicy (policy : ErrorPolicy) (context : Context) (s : Statement) :
    (x.withPolicy policy).runStatement allowed context s = x.runStatement allowed context s := by
  simp only [runStatement, join, joinElements_withPolicy]
  rfl

/-! ### The statements that succeed -/

/-- The statement succeeds when it is run behind a part of a batch. -/
def succeedsBehind (x : Executor) (allowed : Option (List String))
    (source : FetchCall → FetchAnswer) (front : List Statement) (s : Statement) : Bool :=
  match (x.run front allowed).outcome source with
  | .ok out => (x.statementOutcome allowed source out s).isOk
  | .error _ => false

theorem succeedsBehind_of_run {front : List Statement} {out : Output}
    (h : (x.run front allowed).outcome source = .ok out) (s : Statement) :
    x.succeedsBehind allowed source front s =
      (x.statementOutcome allowed source out s).isOk := by
  rw [succeedsBehind, h]

/-- The statements that succeed in the part of a batch that stands behind `front`. -/
def succeeding (x : Executor) (allowed : Option (List String))
    (source : FetchCall → FetchAnswer) (front : List Statement) :
    List Statement → List Statement
  | [] => []
  | s :: rest =>
    let later := x.succeeding allowed source (front ++ [s]) rest
    if x.succeedsBehind allowed source front s then s :: later else later

/-- The two runs in step: behind one output, the rest of a batch and the statements of
it that succeed lead to one output. -/
theorem outcome_runFrom_succeeding {front rest : List Statement} {out final : Output}
    (hfront : (x.run front allowed).outcome source = .ok out)
    (hrest : (x.runFrom allowed rest out).outcome source = .ok final) :
    ((x.withPolicy .failFast).runFrom allowed
      (x.succeeding allowed source front rest) out).outcome source = .ok final := by
  induction rest generalizing front out with
  | nil => exact hrest
  | cons s rest ih =>
    rw [succeeding, succeedsBehind_of_run hfront]
    rcases outcome_runFrom_cons_eq_ok.mp hrest with ⟨result, hs, hrest⟩ | ⟨e, hs, hskips, hrest⟩
    · -- the statement succeeds: both runs record its result
      have hnext : (x.run (front ++ [s]) allowed).outcome source = .ok (out.record s result) :=
        outcome_run_append_eq_ok.mpr ⟨out, hfront, outcome_runFrom_cons_eq_ok.mpr
          (Or.inl ⟨result, hs, rfl⟩)⟩
      have hstrict : (x.withPolicy .failFast).statementOutcome allowed source out s =
          .ok result := by
        rw [statementOutcome, runStatement_withPolicy]
        exact hs
      rw [hs]
      exact outcome_runFrom_cons_eq_ok.mpr (Or.inl ⟨result, hstrict, ih hnext hrest⟩)
    · -- it fails: one run passes over it, the other does not have it
      have hnext : (x.run (front ++ [s]) allowed).outcome source = .ok out :=
        outcome_run_append_eq_ok.mpr ⟨out, hfront, outcome_runFrom_cons_eq_ok.mpr
          (Or.inr ⟨e, hs, hskips, rfl⟩)⟩
      rw [hs]
      exact ih hnext hrest

/-- A statement that fails leaves the output as it was in front of it. -/
theorem outcome_run_concat_of_failed {front : List Statement} {s : Statement} {out : Output}
    (hfails : x.succeedsBehind allowed source front s = false)
    (hrun : (x.run (front ++ [s]) allowed).outcome source = .ok out) :
    (x.run front allowed).outcome source = .ok out := by
  obtain ⟨before, hfront, hs⟩ := outcome_run_append_eq_ok.mp hrun
  rw [succeedsBehind_of_run hfront] at hfails
  rcases outcome_runFrom_cons_eq_ok.mp hs with ⟨result, hs, -⟩ | ⟨e, -, -, hout⟩
  · rw [hs] at hfails
    cases hfails
  · rw [hfront]
    exact hout

/-- **Skipping is atomic.** When a batch succeeds that skips its failed statements, then
so does the batch of the statements that succeeded, without skipping any, and with the
same output: the same variables, that of the latest result among them, and the same
results. Each statement that failed has left the output as it was in front of it. -/
theorem outcome_run_succeeding (catalog : Catalog) (whitelist : Whitelist) (registry : Registry)
    (emptyMeansAll : Bool) (allowed : Option (List String)) (statements : List Statement)
    (source : FetchCall → FetchAnswer) (out : Output) :
    let lenient : Executor := ⟨catalog, whitelist, registry, ⟨.skip, emptyMeansAll⟩⟩
    let strict : Executor := ⟨catalog, whitelist, registry, ⟨.failFast, emptyMeansAll⟩⟩
    (lenient.run statements allowed).outcome source = .ok out →
      (strict.run (lenient.succeeding allowed source [] statements) allowed).outcome source =
          .ok out ∧
        ∀ front s rest, statements = front ++ s :: rest →
          lenient.succeedsBehind allowed source front s = false →
          (lenient.run (front ++ [s]) allowed).outcome source =
            (lenient.run front allowed).outcome source := by
  intro lenient strict h
  have hnothing : (lenient.run [] allowed).outcome source = .ok {} := rfl
  refine ⟨outcome_runFrom_succeeding hnothing h, ?_⟩
  rintro front s rest rfl hfails
  rw [List.append_cons] at h
  obtain ⟨behind, hbehind, -⟩ := outcome_run_append_eq_ok.mp h
  rw [hbehind, outcome_run_concat_of_failed hfails hbehind]

/-- Posts, a statement that fails in its stage, and the posts among the latest result. -/
def blogBatch : List Statement := [
  { name := some "seen"
    expression := .atom (.condition "posts" (some ["title"]) .notEmpty) },
  { name := some "lost"
    expression := .atom (.condition "posts" (some ["title"]) .notEmpty)
    stages := [{ name := "limit" }] },
  { expression := .atom (.condition "posts" (some ["id"]) (.variableRef "_prev" none .any)) }]

/-- The statement that fails is left out, and the latest result is that of the first one. -/
theorem outcome_run_succeeding_blog :
    let whitelist : Whitelist := { grants := [("posts", .all)] }
    let lenient : Executor := ⟨.blog, whitelist, .builtin, ⟨.skip, false⟩⟩
    let strict : Executor := ⟨.blog, whitelist, .builtin, ⟨.failFast, false⟩⟩
    let store : Store := { tables := [("posts", [[("id", .ofNat 7), ("title", .str "On Lean")]])] }
    let ids : Variable :=
      { values := [.ofNat 7], column := some "id", table := some "posts" }
    let out : Output :=
      ⟨[("_prev", ids), ("seen", ids)], [("result", .arr [.ofNat 7]), ("seen", .arr [.ofNat 7])]⟩
    (lenient.run blogBatch none).outcome store.fetch = .ok out ∧
      lenient.succeeding none store.fetch [] blogBatch = [blogBatch[0], blogBatch[2]] ∧
      (strict.run (lenient.succeeding none store.fetch [] blogBatch) none).outcome store.fetch =
        .ok out ∧
      (lenient.run [blogBatch[0], blogBatch[1]] none).outcome store.fetch =
        (lenient.run [blogBatch[0]] none).outcome store.fetch := by
  intro whitelist lenient strict store ids out
  have hrun : (lenient.run blogBatch none).outcome store.fetch = .ok out := by decide +kernel
  have hkept : lenient.succeeding none store.fetch [] blogBatch =
      [blogBatch[0], blogBatch[2]] := by decide +kernel
  have hfails : lenient.succeedsBehind none store.fetch [blogBatch[0]] blogBatch[1] = false := by
    decide +kernel
  obtain ⟨hstrict, hatomic⟩ := outcome_run_succeeding .blog whitelist .builtin false none blogBatch
    store.fetch out hrun
  exact ⟨hrun, hkept, hstrict, hatomic [blogBatch[0]] blogBatch[1] [blogBatch[2]] rfl hfails⟩

end Executor

end TableQuery
