import TableQuery.Number.Binary64
import TableQuery.Text.Search

/-!
# Caches of computations

A cache lets callers who ask for the same result share one computation of it. Under a key it
remembers which computation was started for it last, and when. A caller who comes while the entry
is younger than the lifetime of the cache shares that computation, settled or not; a caller who
comes later, or finds no entry, starts one of its own, which takes the place of the old entry
(`Cache.enter`).

What fails is not kept: a caller who leaves with a failure removes the entry it came by
(`Cache.leave`), but only if the entry still stands for the computation that failed. That is why
computations are told apart: each has a number of its own, its place among all computations that
were ever started.

A cache says nothing about what a computation is. The type `σ` of its states is a parameter, and
a shared computation is carried on by changing its state (`Cache.update`). Nor does the cache
look at a clock of its own accord: it holds the time, in milliseconds, and is told when time
passes.
-/

namespace TableQuery

/-- The lifetime of entries where none is chosen: five minutes, in milliseconds. -/
def defaultLifetime : Nat := 300000

/-- What is remembered under a key: the number of a computation, and when it was started. -/
structure CacheEntry where
  startedAt : Nat
  number : Nat
deriving DecidableEq, Repr

/-- A cache whose computations have states in `σ`. -/
structure Cache (σ : Type) where
  /-- How long, in milliseconds, a computation is shared after its start. -/
  lifetime : Nat := defaultLifetime
  /-- The time, in milliseconds. -/
  clock : Nat := 0
  entries : List (String × CacheEntry) := []
  /-- The computations, at the places given by their numbers. -/
  computations : List σ := []
  /-- How many callers have shared a computation since the counts were reset. -/
  hits : Nat := 0
  /-- How many callers have started a computation since the counts were reset. -/
  misses : Nat := 0

/-- The computation a caller waits for, and whether it is one of the caller's own. -/
structure Admission where
  number : Nat
  isOwn : Bool
deriving DecidableEq, Repr

/-- The counts of a cache. -/
structure CacheStats where
  hits : Nat := 0
  misses : Nat := 0
  entries : Nat := 0
deriving DecidableEq, Repr

/-- The part of the callers that have shared a computation; zero if there were none. -/
def CacheStats.hitRate (s : CacheStats) : Binary64 :=
  if s.hits + s.misses = 0 then .finite .zero
  else .ofQuotient false s.hits (s.hits + s.misses)

namespace Cache

variable {σ : Type}

/-! ### Time -/

/-- Lets time pass. -/
def advance (c : Cache σ) (milliseconds : Nat) : Cache σ :=
  { c with clock := c.clock + milliseconds }

/-- The entry is younger than the lifetime. -/
def isFresh (c : Cache σ) (e : CacheEntry) : Bool :=
  decide (c.clock - e.startedAt < c.lifetime)

/-! ### Callers -/

/-- The entry under a key, if a caller may share its computation now. -/
def fresh? (c : Cache σ) (key : String) : Option CacheEntry :=
  (c.entries.lookup key).filter c.isFresh

/-- Lets a caller in. It shares the computation of a fresh entry, or else starts its own. -/
def enter (c : Cache σ) (key : String) (own : σ) : Admission × Cache σ :=
  match c.fresh? key with
  | some e => (⟨e.number, false⟩, { c with hits := c.hits + 1 })
  | none =>
    let number := c.computations.length
    (⟨number, true⟩,
      { c with
        entries := (key, ⟨c.clock, number⟩) :: c.entries.filter fun e => e.1 != key
        computations := c.computations ++ [own]
        misses := c.misses + 1 })

/-- The state of a computation. -/
def computation? (c : Cache σ) (number : Nat) : Option σ :=
  c.computations[number]?

/-- Gives a computation another state. -/
def update (c : Cache σ) (number : Nat) (state : σ) : Cache σ :=
  { c with computations := c.computations.set number state }

/-- Removes the entry under a key if it stands for the computation of that number. -/
def evict (c : Cache σ) (key : String) (number : Nat) : Cache σ :=
  { c with entries := c.entries.filter fun e => !(e.1 == key && e.2.number == number) }

/-- A caller leaves with the outcome of the computation of that number; a failed one is not
kept. -/
def leave {ε α : Type} (c : Cache σ) (key : String) (number : Nat) : Except ε α → Cache σ
  | .ok _ => c
  | .error _ => c.evict key number

/-! ### Clearing -/

/-- Drops all entries and resets the counts. Both are taken as one step, so nobody comes in
between and is counted in one of them only. Running computations go on for those who wait. -/
def clear (c : Cache σ) : Cache σ :=
  { c with entries := [], hits := 0, misses := 0 }

/-- The mark in front of a text that stands for all keys it occurs in. -/
def occurrenceMark : Char := '~'

/-- Whether a key is meant by a pattern: a key means itself, and a text behind the mark means
every key it occurs in. -/
def keyMatches (pattern key : String) : Bool :=
  match pattern.toList with
  | c :: text => if c == occurrenceMark then Text.hasInfix text key.toList else pattern == key
  | [] => pattern == key

/-- Drops the entries whose keys are meant by the pattern, and counts them. -/
def clearKeys (c : Cache σ) (pattern : String) : Nat × Cache σ :=
  let kept := c.entries.filter fun e => !keyMatches pattern e.1
  (c.entries.length - kept.length, { c with entries := kept })

/-! ### Counts -/

/-- The counts now. -/
def stats (c : Cache σ) : CacheStats :=
  ⟨c.hits, c.misses, c.entries.length⟩

end Cache

end TableQuery
