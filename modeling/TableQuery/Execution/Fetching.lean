import TableQuery.Storage.Connection

/-!
# Computations that fetch

A computation that may ask a row source for rows is a tree: it is done, or it has failed, or it
makes a request and goes on in a way that depends on the answer. Nothing is said about the source,
so one tree tells what happens against every source, whether it answers or fails
(`Fetching.runOn`), and every request that can ever be made is a node of it
(`Fetching.EveryFetch`).

A tree is also what is left to do of a computation: after an answer the computation goes on with
one of its subtrees. It cannot go on for ever, and nor can several computations of which one goes
on at a time, in whatever order (`Fetching.oneGoesOn_wf`).
-/

namespace TableQuery

/-- A computation that may fetch rows and may fail. -/
inductive Fetching (α : Type) where
  | done (value : α)
  | failed (error : Error)
  | fetch (call : FetchCall) (next : FetchAnswer → Fetching α)

namespace Fetching

variable {α β : Type}

/-- Goes on with the value of a computation. -/
def bind : Fetching α → (α → Fetching β) → Fetching β
  | done a, f => f a
  | failed e, _ => failed e
  | fetch call next, f => fetch call fun answer => (next answer).bind f

instance : Monad Fetching where
  pure := done
  bind := bind

/-- A result that needs no rows. -/
def ofExcept : Except Error α → Fetching α
  | .ok a => done a
  | .error e => failed e

instance : MonadLift (Except Error) Fetching := ⟨ofExcept⟩

/-- Makes a request; an error of the storage is the error of the computation. -/
def request (call : FetchCall) : Fetching (List Row) :=
  fetch call fun
    | .ok rows => done rows
    | .error e => failed e.toError

/-- Turns the failure of a computation into a result. -/
def attempt : Fetching α → Fetching (Except Error α)
  | done a => done (.ok a)
  | failed e => done (.error e)
  | fetch call next => fetch call fun answer => (next answer).attempt

/-! ### Running -/

/-- The result against a source, and the requests made on the way. -/
def runOn (source : FetchCall → FetchAnswer) : Fetching α → Except Error α × List FetchCall
  | done a => (.ok a, [])
  | failed e => (.error e, [])
  | fetch call next =>
    let (result, calls) := (next (source call)).runOn source
    (result, call :: calls)

/-- Every request that some source can bring the computation to make has the property. -/
inductive EveryFetch (P : FetchCall → Prop) : Fetching α → Prop where
  | done (a : α) : EveryFetch P (done a)
  | failed (e : Error) : EveryFetch P (failed e)
  | fetch (call : FetchCall) (next : FetchAnswer → Fetching α) :
      P call → (∀ answer, EveryFetch P (next answer)) → EveryFetch P (fetch call next)

/-- Runs a computation to its end over a connection. -/
def settle : Fetching α → Connection → Except Error α × Connection
  | done a, source => (.ok a, source)
  | failed e, source => (.error e, source)
  | fetch call next, source =>
    let (answer, source) := source.fetch call
    (next answer).settle source

/-! ### Going on -/

/-- The first computation is what the second goes on with after some answer. -/
inductive GoesOn : Fetching α → Fetching α → Prop where
  | answered (call : FetchCall) (next : FetchAnswer → Fetching α) (answer : FetchAnswer) :
      GoesOn (next answer) (fetch call next)

/-- The first computations are the second after one of them has gone on. -/
inductive OneGoesOn : List (Fetching α) → List (Fetching α) → Prop where
  | here {t u : Fetching α} (rest : List (Fetching α)) :
      GoesOn t u → OneGoesOn (t :: rest) (u :: rest)
  | later (t : Fetching α) {rest others : List (Fetching α)} :
      OneGoesOn rest others → OneGoesOn (t :: rest) (t :: others)

theorem goesOn_wf : WellFounded (@GoesOn α) := by
  refine ⟨fun t => ?_⟩
  induction t with
  | done a => exact ⟨_, fun _ h => nomatch h⟩
  | failed e => exact ⟨_, fun _ h => nomatch h⟩
  | fetch call next ih => exact ⟨_, fun _ h => by cases h with | answered _ _ a => exact ih a⟩

theorem oneGoesOn_wf : WellFounded (@OneGoesOn α) := by
  refine ⟨fun ts => ?_⟩
  induction ts with
  | nil => exact ⟨_, fun _ h => nomatch h⟩
  | cons t rest ih =>
    induction goesOn_wf.apply t generalizing rest with
    | intro t _ iht =>
      induction ih with
      | intro rest hrest ihrest =>
        refine ⟨_, fun _ h => ?_⟩
        cases h with
        | here _ h => exact iht _ h _ ⟨rest, hrest⟩
        | later _ h => exact ihrest _ h

theorem oneGoesOn_set {ts : List (Fetching α)} {n : Nat} {call : FetchCall}
    {next : FetchAnswer → Fetching α} (h : ts[n]? = some (fetch call next))
    (answer : FetchAnswer) : OneGoesOn (ts.set n (next answer)) ts := by
  induction ts generalizing n with
  | nil => simp at h
  | cons t rest ih =>
    cases n with
    | zero =>
      simp only [List.getElem?_cons_zero, Option.some.injEq] at h
      rw [h]
      exact .here rest (.answered call next answer)
    | succ n => exact .later t (ih (by simpa using h))

instance : WellFoundedRelation (List (Fetching α)) := ⟨OneGoesOn, oneGoesOn_wf⟩

end Fetching

end TableQuery
