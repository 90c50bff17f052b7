import TableQuery.Cache.Basic
import TableQuery.Error

/-!
# Callers on a clock

What happens to a cache when several callers use it at given times. Each does one thing at its
time; a caller who asks for a result brings a computation that takes a while and whose outcome is
decided beforehand, so a computation is settled from the moment it is due on (`Landing`).

The callers stand in an agenda, ordered by time and, at one time, by their places in the list of
callers (`Appointment.isBefore`). Serving the first appointment either finishes its caller or
puts another appointment for it on the agenda, for the moment when the computation it waits for
is due. Each caller therefore has at most two appointments, and the agenda runs empty.
-/

namespace TableQuery

/-- A computation of known outcome, settled from some moment on. -/
structure Landing (α : Type) where
  due : Nat
  outcome : Except Error α

/-- What a caller does with a cache. -/
inductive CallerAction (α : Type) where
  /-- Asks for a result; its own computation of it would take so many milliseconds. -/
  | get (key : String) (take : Nat) (outcome : Except Error α)
  | clear
  | clearKeys (pattern : String)
  | stats

/-- What a caller learns. -/
inductive CallerReport (α : Type) where
  /-- The outcome, whether the caller's own computation gave it, and how many milliseconds it
  waited. -/
  | got (outcome : Except Error α) (isOwn : Bool) (waited : Nat)
  | cleared
  | dropped (count : Nat)
  | counted (stats : CacheStats)

/-- What a caller has come for: to act, or to collect an outcome it has waited for. -/
inductive Errand (α : Type) where
  | act (action : CallerAction α)
  | collect (key : String) (admission : Admission) (since : Nat) (outcome : Except Error α)

/-- A time at which a caller is served. Callers are known by their places in their list. -/
structure Appointment (α : Type) where
  time : Nat
  caller : Nat
  errand : Errand α

namespace Appointment

variable {α : Type}

/-- The order of the agenda: by time, then by place. -/
def isBefore (a b : Appointment α) : Bool :=
  decide (a.time < b.time) || (a.time == b.time && decide (a.caller < b.caller))

/-- How many appointments it can still take to finish the caller, this one included. -/
def weight (a : Appointment α) : Nat :=
  match a.errand with
  | .act _ => 2
  | .collect .. => 1

/-- Puts an appointment on an ordered agenda. -/
def insert (a : Appointment α) : List (Appointment α) → List (Appointment α)
  | [] => [a]
  | b :: rest => if a.isBefore b then a :: b :: rest else b :: a.insert rest

/-- The appointments in their order. -/
def sort (appointments : List (Appointment α)) : List (Appointment α) :=
  appointments.foldr insert []

/-- How many appointments an agenda can still lead to. -/
def totalWeight : List (Appointment α) → Nat
  | [] => 0
  | a :: rest => a.weight + totalWeight rest

theorem totalWeight_insert (a : Appointment α) (agenda : List (Appointment α)) :
    totalWeight (a.insert agenda) = a.weight + totalWeight agenda := by
  induction agenda with
  | nil => simp [insert, totalWeight]
  | cons b rest ih =>
    unfold insert
    split
    · simp [totalWeight]
    · simp only [totalWeight] at ih ⊢
      omega

end Appointment

namespace Cache

variable {α : Type}

/-! ### Serving callers -/

/-- Moves the clock on to a moment that has not passed yet. -/
def advanceTo (c : Cache (Landing α)) (time : Nat) : Cache (Landing α) :=
  c.advance (time - c.clock)

/-- A caller leaves with an outcome. -/
def collect (c : Cache (Landing α)) (key : String) (admission : Admission) (since : Nat)
    (outcome : Except Error α) : CallerReport α × Cache (Landing α) :=
  (.got outcome admission.isOwn (c.clock - since), c.leave key admission.number outcome)

/-- A caller asks for a result. It leaves at once if the computation is settled, and otherwise
comes back when it is due. -/
def ask (c : Cache (Landing α)) (caller : Nat) (key : String) (own : Landing α) :
    (CallerReport α ⊕ Appointment α) × Cache (Landing α) :=
  let (admission, c) := c.enter key own
  let landing := (c.computation? admission.number).getD own
  if landing.due ≤ c.clock then
    let (report, c) := c.collect key admission c.clock landing.outcome
    (.inl report, c)
  else
    (.inr ⟨landing.due, caller, .collect key admission c.clock landing.outcome⟩, c)

/-- Serves a caller: it is finished, or it has to come back. -/
def serve (c : Cache (Landing α)) (caller : Nat) :
    CallerAction α → (CallerReport α ⊕ Appointment α) × Cache (Landing α)
  | .get key take outcome => c.ask caller key ⟨c.clock + take, outcome⟩
  | .clear => (.inl .cleared, c.clear)
  | .clearKeys pattern =>
    let (count, c) := c.clearKeys pattern
    (.inl (.dropped count), c)
  | .stats => (.inl (.counted c.stats), c)

theorem weight_of_serve {c d : Cache (Landing α)} {caller : Nat} {action : CallerAction α}
    {later : Appointment α} (h : c.serve caller action = (.inr later, d)) : later.weight = 1 := by
  cases action with
  | get key take outcome =>
    simp only [serve, ask] at h
    split at h
    · simp at h
    · simp only [Prod.mk.injEq, Sum.inr.injEq] at h
      rw [← h.1]
      rfl
  | _ => simp [serve] at h

/-- Serves an ordered agenda to its end: the reports with the places of their callers. -/
def serveAll (c : Cache (Landing α)) :
    List (Appointment α) → List (Nat × CallerReport α) × Cache (Landing α)
  | [] => ([], c)
  | ⟨time, caller, .collect key admission since outcome⟩ :: rest =>
    let (report, c) := (c.advanceTo time).collect key admission since outcome
    let (reports, c) := c.serveAll rest
    ((caller, report) :: reports, c)
  | ⟨time, caller, .act action⟩ :: rest =>
    match h : (c.advanceTo time).serve caller action with
    | (.inl report, c) =>
      let (reports, c) := c.serveAll rest
      ((caller, report) :: reports, c)
    | (.inr later, c) =>
      have : later.weight = 1 := weight_of_serve h
      c.serveAll (later.insert rest)
termination_by agenda => Appointment.totalWeight agenda
decreasing_by
  · simp [Appointment.totalWeight, Appointment.weight]
  · simp [Appointment.totalWeight, Appointment.weight]
  · rw [Appointment.totalWeight_insert, this]
    simp [Appointment.totalWeight, Appointment.weight]

/-- Lets callers act on the cache, each so many milliseconds from now, and gives their reports in
the order of the callers. -/
def together (c : Cache (Landing α)) (callers : List (Nat × CallerAction α)) :
    List (CallerReport α) × Cache (Landing α) :=
  let agenda := callers.zipIdx.map fun (after, place) =>
    Appointment.mk (c.clock + after.1) place (.act after.2)
  let (reports, c) := c.serveAll (Appointment.sort agenda)
  (((reports.mergeSort fun a b => decide (a.1 ≤ b.1)).map Prod.snd), c)

end Cache

end TableQuery
