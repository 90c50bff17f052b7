import TableQuery.Execution.Runner
import TableQuery.Proofs.Fetching.Outcomes

/-!
# A batch, statement by statement

What running a batch comes to, one statement at a time. A statement that succeeds adds
its result and its variable to the output; one that fails ends the batch, or, where
failures are skipped, leaves the output to the statements behind it as it was
(`TableQuery.Executor.outcome_runFrom_cons_eq_ok`). A batch may be cut anywhere: its
rear part is run on what the front part has left behind
(`TableQuery.Executor.runFrom_append`).
-/

namespace TableQuery

/-- The output with the result of a statement and the variable that it is kept as. -/
def Output.record (out : Output) (s : Statement) (result : Json × Variable) : Output :=
  ⟨out.context.bind s.name result.2, out.results.insert s.resultKey result.1⟩

namespace Executor

variable {x : Executor} {allowed : Option (List String)} {source : FetchCall → FetchAnswer}

/-- What a statement comes to behind an output. -/
def statementOutcome (x : Executor) (allowed : Option (List String))
    (source : FetchCall → FetchAnswer) (out : Output) (s : Statement) :
    Except Error (Json × Variable) :=
  (x.runStatement allowed out.context s).outcome source

/-- The batch goes on after the error. -/
def skips (x : Executor) (e : Error) : Bool :=
  x.options.statementErrors = .skip && e.isSkippable

/-- **One statement of a batch**: its result is recorded for the rest, its failure ends
the batch or is passed over. -/
theorem outcome_runFrom_cons (s : Statement) (rest : List Statement) (out : Output) :
    (x.runFrom allowed (s :: rest) out).outcome source =
      match x.statementOutcome allowed source out s with
      | .ok result => (x.runFrom allowed rest (out.record s result)).outcome source
      | .error e =>
        if x.skips e then (x.runFrom allowed rest out).outcome source else .error e := by
  rw [runFrom, Fetching.outcome_bind, Fetching.outcome_attempt]
  change Fetching.outcome _ source = _
  rw [statementOutcome]
  cases (x.runStatement allowed out.context s).outcome source with
  | ok result => rfl
  | error e => exact apply_ite (fun t : Fetching Output => t.outcome source) _ _ _

/-- A batch that succeeds with a statement in front: the statement succeeds and the rest
goes on with its result, or it fails and the rest goes on without it. -/
theorem outcome_runFrom_cons_eq_ok {s : Statement} {rest : List Statement} {out final : Output} :
    (x.runFrom allowed (s :: rest) out).outcome source = .ok final ↔
      (∃ result, x.statementOutcome allowed source out s = .ok result ∧
        (x.runFrom allowed rest (out.record s result)).outcome source = .ok final) ∨
      ∃ e, x.statementOutcome allowed source out s = .error e ∧ x.skips e = true ∧
        (x.runFrom allowed rest out).outcome source = .ok final := by
  rw [outcome_runFrom_cons]
  cases x.statementOutcome allowed source out s with
  | ok result => simp
  | error e => by_cases hskip : x.skips e = true <;> simp [hskip]

/-- A batch that is cut in two: its rear part runs on what the front part leaves. -/
theorem runFrom_append (front rest : List Statement) (out : Output) :
    x.runFrom allowed (front ++ rest) out =
      x.runFrom allowed front out >>= x.runFrom allowed rest := by
  induction front generalizing out with
  | nil => rfl
  | cons s front ih =>
    rw [List.cons_append, runFrom, runFrom, Fetching.bind_assoc]
    congr 1
    funext r
    cases r with
    | ok result => exact ih _
    | error e =>
      dsimp only
      split
      · exact ih _
      · rfl

theorem outcome_run_append_eq_ok {front rest : List Statement} {final : Output} :
    (x.run (front ++ rest) allowed).outcome source = .ok final ↔
      ∃ out, (x.run front allowed).outcome source = .ok out ∧
        (x.runFrom allowed rest out).outcome source = .ok final := by
  rw [run, runFrom_append, Fetching.outcome_bind_eq_ok]
  rfl

/-- The rows of a statement are there when it is planned, its request is answered and its
relations are looked up. -/
theorem outcome_candidates_eq_ok {s : Statement} {c : Candidates} :
    (x.candidates allowed s).outcome source = .ok c ↔
      x.plan allowed s = .ok (c.table, c.columns) ∧
        source ⟨c.table.name, c.columns.names,
          StorageFilter.ofExpression? c.table s.expression⟩ = .ok c.rows ∧
        (resolveRelations ⟨x.catalog, x.whitelist, allowed⟩ c.table.name c.rows
          s.expression.atoms []).outcome source = .ok c.relations := by
  rw [candidates, Fetching.outcome_lift_bind_eq_ok]
  constructor
  · rintro ⟨⟨table, columns⟩, hplan, h⟩
    obtain ⟨rows, hrows, h⟩ := Fetching.outcome_bind_eq_ok.mp h
    obtain ⟨relations, hrelations, h⟩ := Fetching.outcome_bind_eq_ok.mp h
    obtain rfl := Except.ok.inj h
    exact ⟨hplan, Fetching.outcome_request_eq_ok.mp hrows, hrelations⟩
  · rintro ⟨hplan, hrows, hrelations⟩
    refine ⟨_, hplan, Fetching.outcome_bind_eq_ok.mpr ⟨c.rows, ?_, ?_⟩⟩
    · exact Fetching.outcome_request_eq_ok.mpr hrows
    · exact Fetching.outcome_bind_eq_ok.mpr ⟨c.relations, hrelations, rfl⟩

end Executor

end TableQuery
