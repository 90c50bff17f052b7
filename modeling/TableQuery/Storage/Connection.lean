import TableQuery.Storage.Source

/-!
# Connections to a store

A store is often reached over something that can break. A `Connection` answers requests from its
store, counts them, and can be told that the next few answers will be failures. A request is
counted when it is sent off, whatever its answer will be; whether it fails is decided when it is
answered.
-/

namespace TableQuery

/-- A store, and what happens to the requests on the way to it. -/
structure Connection where
  store : Store := {}
  /-- How many requests have been sent off. -/
  fetches : Nat := 0
  /-- How many of the next answers are failures. -/
  outages : Nat := 0
deriving DecidableEq

namespace Connection

/-- What a request that fails is answered with. -/
def outage : StorageError := .backend "connection reset"

/-- Sends a request off. -/
def ask (c : Connection) : Connection :=
  { c with fetches := c.fetches + 1 }

/-- Answers a request that is under way. -/
def answer (c : Connection) (call : FetchCall) : FetchAnswer × Connection :=
  match c.outages with
  | 0 => (c.store.fetch call, c)
  | n + 1 => (.error outage, { c with outages := n })

/-- Makes a request and waits for its answer. -/
def fetch (c : Connection) (call : FetchCall) : FetchAnswer × Connection :=
  c.ask.answer call

/-- Lets so many of the next answers be failures. -/
def breakFor (c : Connection) (count : Nat) : Connection :=
  { c with outages := count }

/-- Adds a row to a table of the store. -/
def insert (c : Connection) (table : String) (row : Row) : Connection :=
  { c with store := c.store.insert table row }

end Connection

end TableQuery
