import TableQuery.Cache.Basic
import TableQuery.Cache.Key
import TableQuery.Engine.Config
import TableQuery.Grammar.Statement
import TableQuery.Stage.Builtin

/-!
# Engines

An engine holds all that is needed to answer query texts: the catalog, the whitelist, the stages,
a connection to the rows, and the configuration. It may have a cache of batches. Batches with one
key (`batchKey`) then share a run as long as the cache lets them, and a batch that fails is run
again by the next caller.

A text that cannot be read is refused before the cache is looked at.
-/

namespace TableQuery

/-- The parts that an engine is built from. -/
structure EngineParts where
  catalog : Option Catalog := none
  whitelist : Option Whitelist := none
  source : Option Connection := none
  /-- The stages; without them an engine has the built-in ones. -/
  registry : Option Registry := none
  config : EngineConfig := {}

/-- An engine that answers query texts. -/
structure Engine where
  catalog : Catalog
  whitelist : Whitelist
  registry : Registry
  config : EngineConfig
  source : Connection
  /-- The cache of batches, if there is one. A computation is what is left to do of a batch. -/
  cache : Option (Cache (Fetching Output))

/-- A part that has to be there. -/
def EngineParts.require {α : Type} (part : EnginePart) : Option α → Except Error α
  | some a => .ok a
  | none => .error (.setup (.missingPart part))

/-- Puts an engine together. -/
def EngineParts.build (p : EngineParts) : Except Error Engine := do
  let catalog ← require .catalog p.catalog
  let whitelist ← require .whitelist p.whitelist
  let source ← require .source p.source
  p.config.check
  let cache := if p.config.hasCache then some { lifetime := p.config.lifetimeMillis } else none
  return ⟨catalog, whitelist, p.registry.getD .builtin, p.config, source, cache⟩

namespace Engine

/-! ### Batches -/

/-- The statements of a text. -/
def parse (e : Engine) (text : String) : Except Error (List Statement) :=
  TableQuery.parse e.catalog text

/-- What runs the batches. -/
def executor (e : Engine) : Executor :=
  ⟨e.catalog, e.whitelist, e.registry, e.config.options⟩

/-- Carries out a computation, or shares one that was started under the key. Without a cache
nothing is shared. -/
def share (e : Engine) (key : String) (own : Fetching Output) : Except Error Output × Engine :=
  match e.cache with
  | none =>
    let (result, source) := own.settle e.source
    (result, { e with source := source })
  | some c =>
    let (admission, c) := c.enter key own
    let rest := (c.computation? admission.number).getD own
    let (result, source) := rest.settle e.source
    let c := (c.update admission.number (.ofExcept result)).leave key admission.number result
    (result, { e with source := source, cache := some c })

/-- Runs a batch, or shares the run of a batch with its key. -/
def run (e : Engine) (statements : List Statement) (allowed : Option (List String)) :
    Except Error Output × Engine :=
  e.share (batchKey statements allowed) (e.executor.run statements allowed)

/-- Runs the batch of a text. -/
def runText (e : Engine) (text : String) (allowed : Option (List String)) :
    Except Error Output × Engine :=
  match e.parse text with
  | .ok statements => e.run statements allowed
  | .error fault => (.error fault, e)

/-! ### The cache -/

/-- The key of the batch of a text. -/
def keyOf (e : Engine) (text : String) (allowed : Option (List String)) : Except Error String :=
  (e.parse text).map fun statements => batchKey statements allowed

/-- Lets time pass. -/
def advance (e : Engine) (milliseconds : Nat) : Engine :=
  { e with cache := e.cache.map fun c => c.advance milliseconds }

/-- Forgets all results. -/
def clearCache (e : Engine) : Engine :=
  { e with cache := e.cache.map Cache.clear }

/-- Forgets the results whose keys are meant by a pattern, and counts them. -/
def clearKeys (e : Engine) (pattern : String) : Nat × Engine :=
  match e.cache with
  | none => (0, e)
  | some c =>
    let (count, c) := c.clearKeys pattern
    (count, { e with cache := some c })

/-- The counts of the cache; without one they stay at zero. -/
def stats (e : Engine) : CacheStats :=
  (e.cache.map Cache.stats).getD {}

end Engine

end TableQuery
