import TableQuery.Engine.Basic

/-!
# Batches side by side

Several callers run batches on one engine at the same time. They take turns: first each one
enters the cache, in the order of the callers, and takes its first turn at once; then those that
still wait take turns again and again, in the same order, until nobody waits.

In its turn a caller looks at the computation it waits for. If that is settled, the caller leaves
with the outcome. Otherwise a request of the computation is under way: the caller takes the answer
in and carries the computation on, to its end or to its next request, which is sent off. Callers
do so also for computations that were started by others, so a shared computation moves on with
every turn of every caller who shares it.

Every turn either lets a caller leave or makes one of the computations go on, so the rounds come
to an end (`Rounds.turn_decreases`).
-/

namespace TableQuery

/-- A caller who waits for a batch. -/
structure Waiting where
  /-- The place of the caller among the callers. -/
  caller : Nat
  key : String
  number : Nat

/-- Callers who take turns. -/
structure Rounds where
  cache : Cache (Fetching Output)
  source : Connection
  /-- Those who wait, in the order of their turns. -/
  waiting : List Waiting := []
  /-- The answers so far, with the places of their callers. -/
  answers : List (Nat × Except Error Output) := []

namespace Rounds

/-- A caller leaves with an answer. -/
def answer (r : Rounds) (w : Waiting) (result : Except Error Output) : Rounds :=
  { r with
    cache := r.cache.leave w.key w.number result
    answers := (w.caller, result) :: r.answers }

/-- A caller has carried its computation on, to its end or to a request. -/
def proceed (r : Rounds) (w : Waiting) (rest : Fetching Output) : Rounds :=
  let r := { r with cache := r.cache.update w.number rest }
  match rest with
  | .fetch .. => { r with source := r.source.ask, waiting := r.waiting ++ [w] }
  | .done out => r.answer w (.ok out)
  | .failed e => r.answer w (.error e)

/-- A caller takes its turn. -/
def turn (r : Rounds) (w : Waiting) : Rounds :=
  match r.cache.computation? w.number with
  | some (.fetch call next) =>
    let (rows, source) := r.source.answer call
    { r with source := source }.proceed w (next rows)
  | some (.done out) => r.answer w (.ok out)
  | some (.failed e) => r.answer w (.error e)
  -- nobody waits for a computation that was never started
  | none => r

@[simp] theorem computations_answer (r : Rounds) (w : Waiting) (result : Except Error Output) :
    (r.answer w result).cache.computations = r.cache.computations := by
  cases result <;> rfl

@[simp] theorem waiting_answer (r : Rounds) (w : Waiting) (result : Except Error Output) :
    (r.answer w result).waiting = r.waiting := rfl

theorem computations_proceed (r : Rounds) (w : Waiting) (rest : Fetching Output) :
    (r.proceed w rest).cache.computations = r.cache.computations.set w.number rest := by
  cases rest <;> simp [proceed, Cache.update]

theorem turn_decreases (r : Rounds) (w : Waiting) (rest : List Waiting) :
    Prod.Lex Fetching.OneGoesOn (· < ·)
      (({ r with waiting := rest }.turn w).cache.computations,
        ({ r with waiting := rest }.turn w).waiting.length)
      (r.cache.computations, (w :: rest).length) := by
  unfold turn
  split
  · rename_i call next h
    refine .left _ _ ?_
    rw [computations_proceed]
    exact Fetching.oneGoesOn_set h _
  · rw [computations_answer]
    exact .right _ (by simp)
  · rw [computations_answer]
    exact .right _ (by simp)
  · exact .right _ (by simp)

/-- Goes on with turns until nobody waits. -/
def finish (r : Rounds) : Rounds :=
  match _h : r.waiting with
  | [] => r
  | w :: rest => ({ r with waiting := rest }.turn w).finish
termination_by (r.cache.computations, r.waiting.length)
decreasing_by
  rw [_h]
  exact turn_decreases r w rest

/-- A caller enters with a batch of its own. It starts that batch, or takes its first turn with
the one it shares. -/
def enter (r : Rounds) (caller : Nat) (key : String) (own : Fetching Output) : Rounds :=
  let (admission, c) := r.cache.enter key own
  let w : Waiting := ⟨caller, key, admission.number⟩
  if admission.isOwn then { r with cache := c }.proceed w own else { r with cache := c }.turn w

end Rounds

namespace Engine

/-- A caller enters with a text; one that cannot be read is answered at once. -/
def enterText (e : Engine) (r : Rounds) (caller : Nat) (text : String)
    (allowed : Option (List String)) : Rounds :=
  match e.parse text with
  | .ok statements =>
    r.enter caller (batchKey statements allowed) (e.executor.run statements allowed)
  | .error fault => { r with answers := (caller, .error fault) :: r.answers }

/-- Runs the batches of several texts side by side and gives the answers in the order of the
callers. Without a cache nothing is shared, as in a cache whose entries live for no time. -/
def together (e : Engine) (runs : List (String × Option (List String))) :
    List (Except Error Output) × Engine :=
  let start : Rounds := ⟨e.cache.getD { lifetime := 0 }, e.source, [], []⟩
  let entered := runs.zipIdx.foldl
    (fun r (run, caller) => e.enterText r caller run.1 run.2) start
  let r := entered.finish
  let answers := (r.answers.mergeSort fun a b => decide (a.1 ≤ b.1)).map Prod.snd
  (answers, { e with source := r.source, cache := e.cache.map fun _ => r.cache })

end Engine

end TableQuery
