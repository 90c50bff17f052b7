import TableQuery.Proofs.Fetching.Requests

/-!
# Outcomes

What a computation comes to against a source, without the requests that it makes on
the way (`TableQuery.Fetching.outcome`). Against one source that answers every request
alike, a sequence of computations comes to the sequence of what they come to
(`TableQuery.Fetching.outcome_bind`), so a run can be read like a calculation with
results and errors.
-/

namespace TableQuery

namespace Fetching

variable {α β : Type}

/-- What a computation comes to against a source. -/
def outcome (t : Fetching α) (source : FetchCall → FetchAnswer) : Except Error α :=
  (t.runOn source).1

variable {source : FetchCall → FetchAnswer}

@[simp] theorem outcome_done (a : α) : (done a).outcome source = .ok a := rfl

@[simp] theorem outcome_failed (e : Error) :
    (failed e : Fetching α).outcome source = .error e := rfl

@[simp] theorem outcome_fetch (call : FetchCall) (next : FetchAnswer → Fetching α) :
    (fetch call next).outcome source = (next (source call)).outcome source := rfl

@[simp] theorem outcome_lift (r : Except Error α) :
    (liftM r : Fetching α).outcome source = r := by
  cases r <;> rfl

/-- **The outcome of a sequence** is the sequence of the outcomes. -/
theorem outcome_bind (t : Fetching α) (f : α → Fetching β) :
    (t >>= f).outcome source = t.outcome source >>= fun a => (f a).outcome source := by
  induction t with
  | done a => rfl
  | failed e => rfl
  | fetch call next ih => exact ih (source call)

/-- A sequence succeeds when its first part does and the rest does on its value. -/
theorem outcome_bind_eq_ok {t : Fetching α} {f : α → Fetching β} {b : β} :
    (t >>= f).outcome source = .ok b ↔
      ∃ a, t.outcome source = .ok a ∧ (f a).outcome source = .ok b := by
  rw [outcome_bind, except_bind_eq_ok]

/-- What stands behind a check is reached when the check succeeds. -/
theorem outcome_lift_bind_eq_ok {r : Except Error α} {f : α → Fetching β} {b : β} :
    ((liftM r : Fetching α) >>= f).outcome source = .ok b ↔
      ∃ a, r = .ok a ∧ (f a).outcome source = .ok b := by
  rw [outcome_bind_eq_ok, outcome_lift]

@[simp] theorem outcome_attempt (t : Fetching α) :
    t.attempt.outcome source = .ok (t.outcome source) := by
  induction t with
  | done a => rfl
  | failed e => rfl
  | fetch call next ih => exact ih (source call)

theorem outcome_request_eq_ok {call : FetchCall} {rows : List Row} :
    (request call).outcome source = .ok rows ↔ source call = .ok rows := by
  rw [request, outcome_fetch]
  cases source call <;> simp

end Fetching

end TableQuery
