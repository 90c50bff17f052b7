import TableQuery.Schema.Relation
import TableQuery.Schema.Table

/-!
# Catalogs

A catalog holds the tables that can be queried and the relations between them. It is grown from
the empty catalog by adding tables, whose names must differ, and relations, whose tables and key
columns must exist by then and pair up one to one.
-/

namespace TableQuery

/-- The tables that can be queried and the relations between them, each in the order of their
declaration. -/
structure Catalog where
  tables : List Table := []
  relations : List Relation := []
deriving DecidableEq, Repr

namespace Catalog

/-! ### Looking things up -/

/-- The table of a name. -/
def table? (c : Catalog) (name : String) : Option Table :=
  c.tables.find? fun t => t.name == name

/-- The table exists. -/
def hasTable (c : Catalog) (name : String) : Bool :=
  (c.table? name).isSome

/-- The table of a name, which has to exist. -/
def table (c : Catalog) (name : String) : Except Error Table :=
  match c.table? name with
  | some t => .ok t
  | none => .error (.unknownTable name)

/-- A column of a table. -/
def column? (c : Catalog) (tableName column : String) : Option Column :=
  (c.table? tableName).bind fun t => t.column? column

/-- The names of the tables in ascending order. -/
def tableNames (c : Catalog) : List String :=
  (c.tables.map Table.name).mergeSort fun a b => decide (a ≤ b)

/-- The first relation declared from one table to another. -/
def relation? (c : Catalog) (source target : String) : Option Relation :=
  c.relations.find? fun r => r.source == source && r.target == target

/-- The path of an atom that follows a relation: forward along a relation declared from its first
table to its second, backward along one declared the other way round. -/
def path? (c : Catalog) (direction : Direction) (source target : String) :
    Option RelationPath :=
  match direction with
  | .forward => (c.relation? source target).map fun r => r.path .forward
  | .backward => (c.relation? target source).map fun r => r.path .backward

/-! ### Growing -/

/-- Adds a table. -/
def addTable (c : Catalog) (t : Table) : Except Error Catalog :=
  if c.hasTable t.name then .error (.setup (.repeatedTable t.name))
  else .ok { c with tables := c.tables ++ [t] }

/-- The key columns exist in their table. -/
def checkKeys (c : Catalog) (tableName : String) (keys : List String) : Except Error Unit := do
  let t ← c.table tableName
  match keys.find? fun key => (t.column? key).isNone with
  | some key => throw (.unknownColumn tableName key)
  | none => return ()

/-- Adds a relation. -/
def addRelation (c : Catalog) (r : Relation) : Except Error Catalog := do
  if r.sourceKeys.isEmpty || r.sourceKeys.length != r.targetKeys.length then
    throw (.setup (.unpairedKeys r.source r.target))
  c.checkKeys r.source r.sourceKeys
  c.checkKeys r.target r.targetKeys
  return { c with relations := c.relations ++ [r] }

/-- The catalog of complete definitions: each table is judged and then added, and the relations
come last. -/
def ofDefinitions (tables : List Table) (relations : List Relation) : Except Error Catalog := do
  let c ← tables.foldlM (fun c t => do t.check; c.addTable t) {}
  relations.foldlM addRelation c

end Catalog

end TableQuery
