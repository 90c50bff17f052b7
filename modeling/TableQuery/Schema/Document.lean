import TableQuery.Json.Record
import TableQuery.Schema.Catalog

/-!
# Catalog documents

A catalog can be written as a document: its tables, each with its columns, and its relations.
Reading has two parts. First the document has to have the form of a catalog; a fault there has no
particulars. Then the definitions it holds are judged and put together like any others.
-/

namespace TableQuery

namespace Column

/-- A column of a document. -/
def ofWritten? (value : Written) : Option Column := do
  let [name, type, isOptional] ← Record.fields? ["name", "type", "optional"] value | none
  let name ← Record.required? Written.str? name
  let type ← Record.required? (fun v => (Record.word? v).bind ColumnType.ofName?) type
  let isOptional ← Record.withDefault? Written.bool? false isOptional
  return ⟨name, type, isOptional⟩

/-- The column as a record of a document. -/
def toJson (c : Column) : Json :=
  .obj [("name", .str c.name), ("type", .str c.type.name), ("optional", .bool c.optional)]

end Column

namespace Table

/-- A table of a document. -/
def ofWritten? (value : Written) : Option Table := do
  let [name, columns, id] ← Record.fields? ["name", "columns", "id_column"] value | none
  let name ← Record.required? Written.str? name
  let columns ← Record.required? (Written.list? Column.ofWritten?) columns
  let id ← Record.nullable? Written.str? id
  return ⟨name, columns, id⟩

/-- The table as a record of a document. -/
def toJson (t : Table) : Json :=
  .obj ([("name", .str t.name), ("columns", .arr (t.columns.map Column.toJson))] ++
    (t.declaredId.map fun id => ("id_column", .str id)).toList)

end Table

namespace Relation

/-- A relation of a document. -/
def ofWritten? (value : Written) : Option Relation := do
  let names := ["from_table", "to_table", "from_keys", "to_keys", "is_list"]
  let [source, target, sourceKeys, targetKeys, isList] ← Record.fields? names value | none
  let source ← Record.required? Written.str? source
  let target ← Record.required? Written.str? target
  let sourceKeys ← Record.required? Written.strings? sourceKeys
  let targetKeys ← Record.required? Written.strings? targetKeys
  let isList ← Record.withDefault? Written.bool? false isList
  return ⟨source, target, sourceKeys, targetKeys, isList⟩

/-- The relation as a record of a document. -/
def toJson (r : Relation) : Json :=
  .obj [("from_table", .str r.source), ("to_table", .str r.target),
    ("from_keys", .arr (r.sourceKeys.map .str)), ("to_keys", .arr (r.targetKeys.map .str)),
    ("is_list", .bool r.isList)]

end Relation

namespace Catalog

/-- The definitions of a catalog document. -/
def definitions? (value : Written) : Option (List Table × List Relation) := do
  let [tables, relations] ← Record.fields? ["tables", "relations"] value | none
  let tables ← Record.withDefault? (Written.list? Table.ofWritten?) [] tables
  let relations ← Record.withDefault? (Written.list? Relation.ofWritten?) [] relations
  return (tables, relations)

/-- Reads a catalog document. -/
def read (text : String) : Except Error Catalog :=
  match (Written.ofText? text).bind definitions? with
  | some (tables, relations) => ofDefinitions tables relations
  | none => .error (.setup .malformed)

end Catalog

end TableQuery
