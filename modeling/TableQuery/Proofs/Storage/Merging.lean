import TableQuery.Execution.Pushdown

/-!
# Merging filters

Two filters are joined by taking their conjunctions, or disjunctions, apart and
putting the pieces behind each other. Evaluation goes on with the second filter only
where the first leaves the outcome open, so a merged filter is a fold of two verdicts
(`TableQuery.StorageFilter.eval_mergeAnd`, `TableQuery.StorageFilter.eval_mergeOr`)
and an unsupported search is reported exactly as before.
-/

namespace TableQuery

/-- The verdict of a conjunction: the first, unless it holds. -/
def Verdict.andThen (first second : Verdict) : Verdict :=
  match first with
  | .holds true => second
  | verdict => verdict

/-- The verdict of a disjunction: the first, unless it fails. -/
def Verdict.orElse (first second : Verdict) : Verdict :=
  match first with
  | .holds false => second
  | verdict => verdict

namespace Verdict

theorem andThen_holds (a b : Bool) : (holds a).andThen (.holds b) = .holds (a && b) := by
  cases a <;> rfl

theorem orElse_holds (a b : Bool) : (holds a).orElse (.holds b) = .holds (a || b) := by
  cases a <;> rfl

end Verdict

namespace StorageFilter

variable {row : Row}

theorem evalAll_cons (f : StorageFilter) (fs : List StorageFilter) :
    evalAll row (f :: fs) = (f.eval row).andThen (evalAll row fs) := by
  rw [evalAll]
  rcases f.eval row with (_ | _) | _ <;> rfl

theorem evalAny_cons (f : StorageFilter) (fs : List StorageFilter) :
    evalAny row (f :: fs) = (f.eval row).orElse (evalAny row fs) := by
  rw [evalAny]
  rcases f.eval row with (_ | _) | _ <;> rfl

theorem evalAll_append (fs gs : List StorageFilter) :
    evalAll row (fs ++ gs) = (evalAll row fs).andThen (evalAll row gs) := by
  induction fs with
  | nil => rfl
  | cons f fs ih =>
    rw [List.cons_append, evalAll_cons, evalAll_cons, ih]
    rcases f.eval row with (_ | _) | _ <;> rfl

theorem evalAny_append (fs gs : List StorageFilter) :
    evalAny row (fs ++ gs) = (evalAny row fs).orElse (evalAny row gs) := by
  induction fs with
  | nil => rfl
  | cons f fs ih =>
    rw [List.cons_append, evalAny_cons, evalAny_cons, ih]
    rcases f.eval row with (_ | _) | _ <;> rfl

theorem evalAll_singleton (f : StorageFilter) : evalAll row [f] = f.eval row := by
  rw [evalAll_cons, evalAll]
  rcases f.eval row with (_ | _) | _ <;> rfl

theorem evalAny_singleton (f : StorageFilter) : evalAny row [f] = f.eval row := by
  rw [evalAny_cons, evalAny]
  rcases f.eval row with (_ | _) | _ <;> rfl

/-- A conjunction is evaluated one filter after the other, also where there is one only. -/
theorem eval_conj (fs : List StorageFilter) : (conj fs).eval row = evalAll row fs := by
  unfold conj
  split
  · exact (evalAll_singleton _).symm
  · rw [eval]

theorem eval_disj (fs : List StorageFilter) : (disj fs).eval row = evalAny row fs := by
  unfold disj
  split
  · exact (evalAny_singleton _).symm
  · rw [eval]

theorem evalAll_conjuncts (f : StorageFilter) : evalAll row f.conjuncts = f.eval row := by
  cases f with
  | and filters => rw [conjuncts, eval]
  | _ => exact evalAll_singleton _

theorem evalAny_disjuncts (f : StorageFilter) : evalAny row f.disjuncts = f.eval row := by
  cases f with
  | or filters => rw [disjuncts, eval]
  | _ => exact evalAny_singleton _

/-- **A merged conjunction** goes on with its right half where the left one holds. -/
theorem eval_mergeAnd (l r : StorageFilter) :
    (mergeAnd l r).eval row = (l.eval row).andThen (r.eval row) := by
  rw [mergeAnd, eval, evalAll_append, evalAll_conjuncts, evalAll_conjuncts]

/-- **A merged disjunction** goes on with its right half where the left one fails. -/
theorem eval_mergeOr (l r : StorageFilter) :
    (mergeOr l r).eval row = (l.eval row).orElse (r.eval row) := by
  rw [mergeOr, eval, evalAny_append, evalAny_disjuncts, evalAny_disjuncts]

end StorageFilter

end TableQuery
