import TableQuery.Proofs.Fetching.Requests
import TableQuery.Schema.Document

/-!
# The catalogs that there are

A `TableQuery.Catalog` is plain data, and not every value of that type can come
about. `TableQuery.Catalog.Built` describes those that do: they are grown from the
empty catalog, table by table and relation by relation, out of tables that were
judged or built step by step (`TableQuery.Table.Defined`). Reading a document is one
way to such a catalog (`TableQuery.Catalog.built_of_read`).

Growing never takes anything away, so what was checked when a relation was added
stays true: both of its tables are in the catalog, with the key columns in them. In
the form in which the executor uses it this is
`TableQuery.Catalog.Built.remote_of_path?`, about the far side of a path.
-/

namespace TableQuery

/-! ### Tables -/

namespace TableBuilder

/-- The tables under construction that the steps lead to. -/
inductive Reached : TableBuilder → Prop
  | start {name : String} {b : TableBuilder} : start name = .ok b → Reached b
  | addColumn {b b' : TableBuilder} {c : Column} :
      Reached b → b.addColumn c = .ok b' → Reached b'
  | setId {b b' : TableBuilder} {name : String} :
      Reached b → b.setId name = .ok b' → Reached b'

theorem Reached.checkName {b : TableBuilder} (h : b.Reached) : checkName b.name = .ok () := by
  induction h with
  | @start name b h =>
    obtain ⟨_, hname, hb⟩ := except_bind_eq_ok.mp h
    cases hb
    exact hname
  | @addColumn b b' c _ h ih =>
    obtain ⟨_, -, h⟩ := except_bind_eq_ok.mp h
    obtain ⟨-, hb⟩ := except_guard_eq_ok.mp h
    cases hb
    exact ih
  | @setId b b' name _ h ih =>
    rw [TableBuilder.setId] at h
    obtain ⟨-, hb⟩ := except_guard_eq_ok.mp h
    cases hb
    exact ih

end TableBuilder

namespace Table

/-- A table that was judged as a whole, or built step by step. -/
def Defined (t : Table) : Prop :=
  t.check = .ok () ∨ ∃ b : TableBuilder, b.Reached ∧ b.finish = .ok t

theorem Defined.checkName {t : Table} (h : t.Defined) : checkName t.name = .ok () := by
  rcases h with h | ⟨b, hb, h⟩
  · obtain ⟨_, hname, -⟩ := except_bind_eq_ok.mp h
    exact hname
  · rw [TableBuilder.finish] at h
    split at h
    · exact absurd h (by simp)
    · cases h
      exact hb.checkName

theorem name_of_column? {t : Table} {name : String} {column : Column}
    (h : t.column? name = some column) : column.name = name := by
  rw [column?] at h
  simpa using List.find?_some h

theorem mem_columnNames_of_column? {t : Table} {name : String}
    (h : (t.column? name).isSome = true) : name ∈ t.columnNames := by
  obtain ⟨c, hc⟩ := Option.isSome_iff_exists.mp h
  exact name_of_column? hc ▸ List.mem_map_of_mem (List.mem_of_find?_eq_some hc)

theorem exists_column? {t : Table} {name : String} (h : name ∈ t.columnNames) :
    ∃ column, t.column? name = some column := by
  obtain ⟨column, hcolumn, rfl⟩ := List.mem_map.mp h
  exact Option.isSome_iff_exists.mp (List.find?_isSome.mpr ⟨column, hcolumn, beq_self_eq_true _⟩)

/-- Where no unknown column is found in a list, all its names are columns. -/
theorem mem_columnNames_of_find?_eq_none {t : Table} {names : List String}
    (h : (names.find? fun name => (t.column? name).isNone) = none) :
    ∀ name ∈ names, name ∈ t.columnNames := by
  intro name hname
  have hsome := List.find?_eq_none.mp h name hname
  exact mem_columnNames_of_column? (by simpa [Option.isSome_iff_ne_none] using hsome)

end Table

/-! ### Catalogs -/

namespace Catalog

/-- The catalogs that growing leads to. -/
inductive Built : Catalog → Prop
  | empty : Built {}
  | table {c c' : Catalog} {t : Table} :
      Built c → t.Defined → c.addTable t = .ok c' → Built c'
  | relation {c c' : Catalog} {r : Relation} : Built c → c.addRelation r = .ok c' → Built c'

theorem mem_tables_of_table? {c : Catalog} {name : String} {t : Table}
    (h : c.table? name = some t) : t ∈ c.tables ∧ t.name = name :=
  ⟨List.mem_of_find?_eq_some h, by simpa using List.find?_some h⟩

theorem table_eq_ok {c : Catalog} {name : String} {t : Table} :
    c.table name = .ok t ↔ c.table? name = some t := by
  rw [table]
  cases c.table? name <;> simp

theorem addTable_eq_ok {c c' : Catalog} {t : Table} (h : c.addTable t = .ok c') :
    c' = { c with tables := c.tables ++ [t] } := by
  rw [addTable] at h
  split at h
  · exact absurd h (by simp)
  · cases h
    rfl

/-- A table that is there stays there when another one is added. -/
theorem table?_addTable {c c' : Catalog} {t u : Table} {name : String}
    (h : c.addTable t = .ok c') (hu : c.table? name = some u) : c'.table? name = some u := by
  rw [addTable_eq_ok h, table?, List.find?_append]
  rw [table?] at hu
  rw [hu, Option.some_or]

/-- A table holds the columns of a list. -/
def HasColumns (c : Catalog) (name : String) (columns : List String) : Prop :=
  ∃ t, c.table? name = some t ∧ ∀ column ∈ columns, column ∈ t.columnNames

theorem hasColumns_of_checkKeys {c : Catalog} {name : String} {keys : List String}
    (h : c.checkKeys name keys = .ok ()) : c.HasColumns name keys := by
  obtain ⟨t, ht, h⟩ := except_bind_eq_ok.mp h
  refine ⟨t, table_eq_ok.mp ht, Table.mem_columnNames_of_find?_eq_none ?_⟩
  cases hfind : keys.find? fun key => (t.column? key).isNone with
  | some key =>
    rw [hfind] at h
    exact absurd h (by simp [throw, throwThe, MonadExceptOf.throw])
  | none => rfl

/-- What adding a relation checks, and what it does. -/
theorem addRelation_eq_ok {c c' : Catalog} {r : Relation} (h : c.addRelation r = .ok c') :
    c.HasColumns r.source r.sourceKeys ∧ c.HasColumns r.target r.targetKeys ∧
      c' = { c with relations := c.relations ++ [r] } := by
  rw [addRelation] at h
  obtain ⟨-, h⟩ := except_guard_eq_ok.mp h
  obtain ⟨_, hsource, h⟩ := except_bind_eq_ok.mp h
  obtain ⟨_, htarget, h⟩ := except_bind_eq_ok.mp h
  cases h
  exact ⟨hasColumns_of_checkKeys hsource, hasColumns_of_checkKeys htarget, rfl⟩

theorem paired_of_addRelation {c c' : Catalog} {r : Relation} (h : c.addRelation r = .ok c') :
    r.sourceKeys.length = r.targetKeys.length := by
  rw [addRelation] at h
  obtain ⟨hunpaired, -⟩ := except_guard_eq_ok.mp h
  simp only [Bool.or_eq_true, bne_iff_ne, not_or] at hunpaired
  exact Decidable.not_not.mp hunpaired.2

namespace Built

theorem checkName {c : Catalog} (h : c.Built) : ∀ t ∈ c.tables, checkName t.name = .ok () := by
  induction h with
  | empty => intro t ht; exact absurd ht (by simp)
  | @table c c' t _ hdef hadd ih =>
    intro u hu
    rw [addTable_eq_ok hadd] at hu
    rcases List.mem_append.mp hu with hu | hu
    · exact ih u hu
    · obtain rfl := List.mem_singleton.mp hu
      exact hdef.checkName
  | relation _ hadd ih =>
    obtain ⟨-, -, rfl⟩ := addRelation_eq_ok hadd
    exact ih

/-- **Relations link what is there**: the tables of a declared relation are in the
catalog, with its key columns. -/
theorem hasColumns {c : Catalog} (h : c.Built) : ∀ r ∈ c.relations,
    c.HasColumns r.source r.sourceKeys ∧ c.HasColumns r.target r.targetKeys := by
  induction h with
  | empty => intro r hr; exact absurd hr (by simp)
  | @table c c' t _ _ hadd ih =>
    intro r hr
    -- a new table hides no table that was there
    have keeps : ∀ {name : String} {columns : List String},
        c.HasColumns name columns → c'.HasColumns name columns := by
      rintro name columns ⟨u, hu, hcolumns⟩
      exact ⟨u, table?_addTable hadd hu, hcolumns⟩
    have hold : r ∈ c.relations := by
      rw [addTable_eq_ok hadd] at hr
      exact hr
    exact ⟨keeps (ih r hold).1, keeps (ih r hold).2⟩
  | @relation c c' r' _ hadd ih =>
    obtain ⟨hsource, htarget, rfl⟩ := addRelation_eq_ok hadd
    intro r hr
    rcases List.mem_append.mp hr with hr | hr
    · exact ih r hr
    · obtain rfl := List.mem_singleton.mp hr
      exact ⟨hsource, htarget⟩

/-- The key columns of a declared relation pair up. -/
theorem paired {c : Catalog} (h : c.Built) :
    ∀ r ∈ c.relations, r.sourceKeys.length = r.targetKeys.length := by
  induction h with
  | empty => intro r hr; exact absurd hr (by simp)
  | table _ _ hadd ih =>
    rw [addTable_eq_ok hadd]
    exact ih
  | @relation c c' r' _ hadd ih =>
    obtain ⟨-, -, hc'⟩ := addRelation_eq_ok hadd
    intro r hr
    rw [hc'] at hr
    rcases List.mem_append.mp hr with hr | hr
    · exact ih r hr
    · obtain rfl := List.mem_singleton.mp hr
      exact paired_of_addRelation hadd

/-- The key columns on the two sides of a path pair up. -/
theorem paired_of_path? {c : Catalog} (h : c.Built) {direction : Direction}
    {source target : String} {path : RelationPath}
    (hpath : c.path? direction source target = some path) :
    path.localKeys.length = path.remoteKeys.length := by
  cases direction with
  | forward =>
    obtain ⟨r, hr, rfl⟩ := Option.map_eq_some_iff.mp hpath
    exact h.paired r (List.mem_of_find?_eq_some hr)
  | backward =>
    obtain ⟨r, hr, rfl⟩ := Option.map_eq_some_iff.mp hpath
    exact (h.paired r (List.mem_of_find?_eq_some hr)).symm

/-- The far side of a path is a table of the catalog, and its keys are columns of it. -/
theorem remote_of_path? {c : Catalog} (h : c.Built) {direction : Direction}
    {source target : String} {path : RelationPath}
    (hpath : c.path? direction source target = some path) :
    c.HasColumns path.remoteTable path.remoteKeys := by
  cases direction with
  | forward =>
    obtain ⟨r, hr, rfl⟩ := Option.map_eq_some_iff.mp hpath
    exact (h.hasColumns r (List.mem_of_find?_eq_some hr)).2
  | backward =>
    obtain ⟨r, hr, rfl⟩ := Option.map_eq_some_iff.mp hpath
    exact (h.hasColumns r (List.mem_of_find?_eq_some hr)).1

end Built

/-! ### Documents -/

theorem built_of_foldlM_tables {tables : List Table} {c c' : Catalog} (hc : c.Built)
    (h : tables.foldlM (fun c t => do t.check; c.addTable t) c = .ok c') : c'.Built := by
  refine invariant_of_foldlM (fun t _ c c' hc hstep => ?_) hc h
  obtain ⟨_, hcheck, hadd⟩ := except_bind_eq_ok.mp hstep
  exact .table hc (Or.inl hcheck) hadd

theorem built_of_foldlM_relations {relations : List Relation} {c c' : Catalog} (hc : c.Built)
    (h : relations.foldlM addRelation c = .ok c') : c'.Built :=
  invariant_of_foldlM (fun _ _ _ _ hc hadd => .relation hc hadd) hc h

/-- **A catalog that was read was built.** -/
theorem built_of_read {text : String} {c : Catalog} (h : read text = .ok c) : c.Built := by
  rw [read] at h
  split at h
  · obtain ⟨c₁, htables, hrelations⟩ := except_bind_eq_ok.mp h
    exact built_of_foldlM_relations (built_of_foldlM_tables .empty htables) hrelations
  · exact absurd h (by simp)

/-! ### An example -/

/-- Posts that refer to their authors. -/
def blog : Catalog where
  tables := [
    { name := "users", columns := [⟨"id", .number, false⟩, ⟨"name", .string, false⟩] },
    { name := "posts", columns := [⟨"id", .number, false⟩, ⟨"title", .string, false⟩,
        ⟨"author_id", .number, true⟩, ⟨"created_at", .date, true⟩] }]
  relations := [⟨"posts", "users", ["author_id"], ["id"], false⟩]

theorem built_blog : blog.Built := by
  have husers := Built.table (t := blog.tables[0]) .empty (Or.inl rfl) rfl
  have hposts := Built.table (t := blog.tables[1]) husers (Or.inl rfl) rfl
  exact .relation (r := blog.relations[0]) hposts rfl

end Catalog

end TableQuery
