import TableQuery.Proofs.Schema.Built

/-!
# What catalogs are made of

A catalog is made of complete definitions, each judged as a whole, or step by step. The
two ways check the same things one by one, in an order of their own, and what they let
through is told here without either of them: the judgement passes exactly the tables
that are `TableQuery.Table.Lawful`, and the steps lead exactly to those of them that have
a column (`TableQuery.Table.check_eq_ok_iff`, `TableQuery.TableBuilder.build_eq_ok_iff`).

So a catalog that is made step by step is `TableQuery.Catalog.WellFormed`. One that is
read from a document is so but for tables without columns, which nobody turns away there
and which have no column to identify their rows by
(`TableQuery.Catalog.wellFormed_by_construction`).
-/

namespace TableQuery

/-- One more name at the end of a list without repetitions. -/
theorem nodup_append_singleton {names : List String} {name : String} :
    (names ++ [name]).Nodup ↔ name ∉ names ∧ names.Nodup := by
  rw [List.perm_append_comm.nodup_iff]
  exact List.nodup_cons

/-! ### Names -/

/-- A name begins with an ASCII letter or an underscore, and ASCII letters, ASCII digits and
underscores follow. -/
def FollowsNamingRule (name : String) : Prop :=
  ∃ c rest, name.toList = c :: rest ∧ (c.isAlpha = true ∨ c = '_') ∧
    ∀ d ∈ rest, d.isAlphanum = true ∨ d = '_'

theorem checkName_eq_ok_iff {name : String} :
    checkName name = .ok () ↔ FollowsNamingRule name := by
  have hletter : ∀ b : Bool, ∀ d : Char, (b || d == '_') = true ↔ b = true ∨ d = '_' := by simp
  rw [checkName, FollowsNamingRule]
  cases name.toList with
  | nil => simp
  | cons c rest =>
    dsimp only
    constructor
    · intro h
      split at h
      · cases h
      rename_i hfirst
      split at h
      · cases h
      rename_i hrest
      simp only [Bool.not_eq_true', Bool.not_eq_false] at hfirst hrest
      exact ⟨c, rest, rfl, (hletter _ _).mp hfirst,
        fun d hd => (hletter _ _).mp (List.all_eq_true.mp hrest d hd)⟩
    · rintro ⟨_, _, heq, hfirst, hrest⟩
      obtain ⟨rfl, rfl⟩ := List.cons.inj heq
      rw [if_neg, if_neg]
      · rw [Bool.not_eq_true', Bool.not_eq_false, List.all_eq_true]
        exact fun d hd => (hletter _ _).mpr (hrest d hd)
      · rw [Bool.not_eq_true', Bool.not_eq_false]
        exact (hletter _ _).mpr hfirst

/-! ### Tables -/

namespace Table

/-- What is asked of a table however it is made: proper names, columns that differ by name, and
an identifying column, if one is declared, that is a column of the table. -/
structure Lawful (t : Table) : Prop where
  name : FollowsNamingRule t.name
  columns : ∀ c ∈ t.columns, FollowsNamingRule c.name
  distinct : t.columnNames.Nodup
  declared : ∀ id ∈ t.declaredId, id ∈ t.columnNames

/-- A table that has columns, with one among them that identifies its rows. -/
structure WellFormed (t : Table) : Prop extends Lawful t where
  nonempty : t.columns ≠ []
  identified : t.idColumn ∈ t.columnNames

theorem isSome_column?_iff {t : Table} {name : String} :
    (t.column? name).isSome = true ↔ name ∈ t.columnNames := by
  rw [column?, List.find?_isSome, columnNames, List.mem_map]
  simp

/-- The rows of a table can be identified as soon as there is a column. -/
theorem Lawful.idColumn_mem_iff {t : Table} (h : t.Lawful) :
    t.idColumn ∈ t.columnNames ↔ t.columns ≠ [] := by
  constructor
  · rintro hmem hnil
    rw [columnNames, hnil] at hmem
    cases hmem
  intro hne
  rw [idColumn]
  cases hid : t.declaredId with
  | some id => exact h.declared id hid
  | none =>
    dsimp only
    split
    · exact isSome_column?_iff.mp ‹_›
    · obtain ⟨c, rest, hcolumns⟩ := List.exists_cons_of_ne_nil hne
      simp [columnNames, hcolumns]

theorem Lawful.wellFormed_iff {t : Table} (h : t.Lawful) : t.WellFormed ↔ t.columns ≠ [] :=
  ⟨WellFormed.nonempty, fun hne => ⟨h, hne, h.idColumn_mem_iff.mpr hne⟩⟩

/-! #### Judged as a whole -/

theorem checkColumns_eq_ok_iff {table : String} {columns : List Column} : ∀ {seen : List String},
    checkColumns table seen columns = .ok () ↔
      (∀ c ∈ columns, FollowsNamingRule c.name) ∧ (columns.map Column.name).Nodup ∧
        ∀ c ∈ columns, c.name ∉ seen := by
  induction columns with
  | nil => simp [checkColumns]
  | cons c rest ih =>
    intro seen
    rw [checkColumns, except_check_eq_ok, checkName_eq_ok_iff, except_guard_eq_ok,
      List.contains_iff_mem, ih, List.forall_mem_cons, List.forall_mem_cons, List.map_cons,
      List.nodup_cons]
    simp only [List.mem_cons, not_or, List.mem_map]
    constructor
    · rintro ⟨hname, hfresh, hnames, hdistinct, hothers⟩
      exact ⟨⟨hname, hnames⟩, ⟨fun ⟨d, hd, heq⟩ => (hothers d hd).1 heq, hdistinct⟩, hfresh,
        fun d hd => (hothers d hd).2⟩
    · rintro ⟨⟨hname, hnames⟩, ⟨hnew, hdistinct⟩, hfresh, hothers⟩
      exact ⟨hname, hfresh, hnames, hdistinct, fun d hd => ⟨fun heq => hnew ⟨d, hd, heq⟩,
        hothers d hd⟩⟩

/-- **The judgement of a definition** passes the lawful tables. -/
theorem check_eq_ok_iff {t : Table} : t.check = .ok () ↔ t.Lawful := by
  have hmissing : ∀ id : String, (t.column? id).isNone = true ↔ id ∉ t.columnNames := fun id => by
    rw [← isSome_column?_iff, Option.isNone_iff_eq_none, Option.not_isSome_iff_eq_none]
  have hdeclared : (∀ id ∈ t.declaredId, id ∈ t.columnNames) ↔
      (∀ id, t.declaredId = some id → (t.column? id).isNone = false) :=
    forall₂_congr fun id _ => by rw [← Bool.not_eq_true, hmissing, not_not]
  rw [check, except_check_eq_ok, except_check_eq_ok, checkName_eq_ok_iff, checkColumns_eq_ok_iff]
  constructor
  · rintro ⟨hname, ⟨hcolumns, hdistinct, -⟩, h⟩
    refine ⟨hname, hcolumns, hdistinct, hdeclared.mpr fun id hid => ?_⟩
    cases hnone : (t.column? id).isNone with
    | false => rfl
    | true => simp [hid, hnone, throw, throwThe, MonadExceptOf.throw] at h
  · rintro ⟨hname, hcolumns, hdistinct, h⟩
    refine ⟨hname, ⟨hcolumns, hdistinct, fun _ _ => List.not_mem_nil⟩, ?_⟩
    cases hid : t.declaredId with
    | none => rfl
    | some id => simp [hdeclared.mp h id hid, pure, Except.pure]

end Table

/-! #### Built step by step -/

namespace TableBuilder

/-- The table that a builder is about to finish. -/
def table (b : TableBuilder) : Table :=
  ⟨b.name, b.columns, b.declaredId⟩

theorem start_eq_ok_iff {name : String} {b : TableBuilder} :
    start name = .ok b ↔ FollowsNamingRule name ∧ b = { name := name } := by
  rw [start, except_check_eq_ok, checkName_eq_ok_iff]
  exact and_congr_right fun _ => ⟨fun h => (Except.ok.inj h).symm, fun h => congrArg _ h.symm⟩

theorem addColumn_eq_ok_iff {b b' : TableBuilder} {c : Column} :
    b.addColumn c = .ok b' ↔ FollowsNamingRule c.name ∧ c.name ∉ b.table.columnNames ∧
      b' = { b with columns := b.columns ++ [c] } := by
  have hrepeated : (b.columns.any fun d => d.name == c.name) = true ↔
      c.name ∈ b.table.columnNames := by
    simp [table, Table.columnNames]
  rw [addColumn, except_check_eq_ok, checkName_eq_ok_iff, except_guard_eq_ok, hrepeated]
  exact and_congr_right fun _ => and_congr_right fun _ =>
    ⟨fun h => (Except.ok.inj h).symm, fun h => congrArg _ h.symm⟩

theorem setId_eq_ok_iff {b b' : TableBuilder} {name : String} :
    b.setId name = .ok b' ↔
      name ∈ b.table.columnNames ∧ b' = { b with declaredId := some name } := by
  have hknown : ¬(!(b.columns.any fun c => c.name == name)) = true ↔
      name ∈ b.table.columnNames := by
    simp [table, Table.columnNames]
  rw [setId, except_guard_eq_ok, hknown]
  exact and_congr_right fun _ => ⟨fun h => (Except.ok.inj h).symm, fun h => congrArg _ h.symm⟩

theorem finish_eq_ok_iff {b : TableBuilder} {t : Table} :
    b.finish = .ok t ↔ b.columns ≠ [] ∧ t = b.table := by
  rw [finish]
  split
  · rename_i hempty
    simp [List.isEmpty_iff.mp hempty]
  · rename_i hne
    rw [List.isEmpty_iff] at hne
    exact ⟨fun h => ⟨hne, (Except.ok.inj h).symm⟩, fun h => congrArg _ h.2.symm⟩

/-- **What is under construction is lawful** behind every step. -/
theorem Reached.lawful {b : TableBuilder} (h : b.Reached) : b.table.Lawful := by
  induction h with
  | start h =>
    obtain ⟨hname, rfl⟩ := start_eq_ok_iff.mp h
    exact ⟨hname, fun _ h => absurd h List.not_mem_nil, List.nodup_nil,
      fun _ h => absurd h (Option.not_mem_none _)⟩
  | @addColumn b b' c _ h ih =>
    obtain ⟨hname, hnew, rfl⟩ := addColumn_eq_ok_iff.mp h
    have hnames : (table { b with columns := b.columns ++ [c] }).columnNames =
        b.table.columnNames ++ [c.name] := List.map_append
    refine ⟨ih.name, List.forall_mem_append.mpr ⟨ih.columns, List.forall_mem_singleton.mpr hname⟩,
      ?_, fun id hid => ?_⟩
    · rw [hnames]
      exact nodup_append_singleton.mpr ⟨hnew, ih.distinct⟩
    · rw [hnames]
      exact List.mem_append_left _ (ih.declared id hid)
  | @setId b b' name _ h ih =>
    obtain ⟨hknown, rfl⟩ := setId_eq_ok_iff.mp h
    exact { ih with declared := fun id hid => Option.mem_some.mp hid ▸ hknown }

/-- Declares the identifying column that a definition names, if it names one. -/
def declareId (b : TableBuilder) : Option String → Except Error TableBuilder
  | some name => b.setId name
  | none => .ok b

/-- Builds a table from its definition: its columns first, and then the identifying one. -/
def build (t : Table) : Except Error Table := do
  let b ← start t.name
  let b ← t.columns.foldlM addColumn b
  let b ← b.declareId t.declaredId
  b.finish

theorem addColumns_eq_ok_iff {columns : List Column} : ∀ {b b' : TableBuilder},
    b.table.columnNames.Nodup →
      (columns.foldlM addColumn b = .ok b' ↔ (∀ c ∈ columns, FollowsNamingRule c.name) ∧
        (b.table.columnNames ++ columns.map Column.name).Nodup ∧
          b' = { b with columns := b.columns ++ columns }) := by
  induction columns with
  | nil =>
    intro b b' hdistinct
    rw [List.foldlM_nil, List.map_nil, List.append_nil, List.append_nil]
    exact ⟨fun h => ⟨fun _ h => absurd h List.not_mem_nil, hdistinct, (Except.ok.inj h).symm⟩,
      fun h => congrArg _ h.2.2.symm⟩
  | cons c rest ih =>
    intro b b' hdistinct
    have hnames : (table { b with columns := b.columns ++ [c] }).columnNames =
        b.table.columnNames ++ [c.name] := List.map_append
    have hsplit : b.table.columnNames ++ (c :: rest).map Column.name =
        b.table.columnNames ++ [c.name] ++ rest.map Column.name := by simp
    rw [List.foldlM_cons, except_bind_eq_ok, List.forall_mem_cons, hsplit]
    constructor
    · rintro ⟨b₁, hstep, hrest⟩
      obtain ⟨hname, hnew, rfl⟩ := addColumn_eq_ok_iff.mp hstep
      have hdistinct' : (b.table.columnNames ++ [c.name]).Nodup :=
        nodup_append_singleton.mpr ⟨hnew, hdistinct⟩
      obtain ⟨hnames', hall, rfl⟩ := (ih (hnames ▸ hdistinct')).mp hrest
      exact ⟨⟨hname, hnames'⟩, hnames ▸ hall, by simp⟩
    · rintro ⟨⟨hname, hnames'⟩, hall, rfl⟩
      have hdistinct' := (List.nodup_append.mp hall).1
      have hnew := (nodup_append_singleton.mp hdistinct').1
      refine ⟨_, addColumn_eq_ok_iff.mpr ⟨hname, hnew, rfl⟩, ?_⟩
      exact (ih (hnames ▸ hdistinct')).mpr ⟨hnames', hnames ▸ hall, by simp⟩

theorem declareId_eq_ok_iff {b b' : TableBuilder} {id : Option String} :
    b.declareId id = .ok b' ↔ (∀ name ∈ id, name ∈ b.table.columnNames) ∧
      b' = { b with declaredId := id <|> b.declaredId } := by
  cases id with
  | none => exact ⟨fun h => ⟨nofun, (Except.ok.inj h).symm⟩, fun h => congrArg _ h.2.symm⟩
  | some name => simp [declareId, setId_eq_ok_iff]

/-- **Building a table step by step** leads to the lawful tables that have a column. -/
theorem build_eq_ok_iff {t u : Table} :
    build t = .ok u ↔ (t.Lawful ∧ t.columns ≠ []) ∧ u = t := by
  obtain ⟨name, columns, declaredId⟩ := t
  have hempty : (table { name := name }).columnNames.Nodup := List.nodup_nil
  rw [build]
  constructor
  · intro h
    obtain ⟨b₀, hstart, h⟩ := except_bind_eq_ok.mp h
    obtain ⟨b₁, hcolumns, h⟩ := except_bind_eq_ok.mp h
    obtain ⟨b₂, hid, h⟩ := except_bind_eq_ok.mp h
    obtain ⟨hname, rfl⟩ := start_eq_ok_iff.mp hstart
    obtain ⟨hnames, hdistinct, rfl⟩ := (addColumns_eq_ok_iff hempty).mp hcolumns
    obtain ⟨hdeclared, rfl⟩ := declareId_eq_ok_iff.mp hid
    obtain ⟨hne, rfl⟩ := finish_eq_ok_iff.mp h
    exact ⟨⟨⟨hname, hnames, hdistinct, hdeclared⟩, hne⟩, by simp [table]⟩
  · rintro ⟨⟨⟨hname, hnames, hdistinct, hdeclared⟩, hne⟩, rfl⟩
    refine except_bind_eq_ok.mpr ⟨_, start_eq_ok_iff.mpr ⟨hname, rfl⟩, ?_⟩
    refine except_bind_eq_ok.mpr
      ⟨_, (addColumns_eq_ok_iff hempty).mpr ⟨hnames, hdistinct, rfl⟩, ?_⟩
    have hdeclared' : ∀ id ∈ declaredId,
        id ∈ (table { name := name, columns := [] ++ columns }).columnNames := hdeclared
    refine except_bind_eq_ok.mpr ⟨_, declareId_eq_ok_iff.mpr ⟨hdeclared', rfl⟩, ?_⟩
    exact finish_eq_ok_iff.mpr ⟨hne, by simp [table]⟩

theorem Reached.addColumns {columns : List Column} {b b' : TableBuilder} (hb : b.Reached)
    (h : columns.foldlM TableBuilder.addColumn b = .ok b') : b'.Reached :=
  invariant_of_foldlM (fun _ _ _ _ hb hadd => .addColumn hb hadd) hb h

theorem Reached.declareId {b b' : TableBuilder} (hb : b.Reached) {id : Option String}
    (h : TableBuilder.declareId b id = .ok b') : b'.Reached := by
  cases id with
  | none =>
    cases h
    exact hb
  | some name => exact .setId hb h

theorem exists_reached_of_build {t u : Table} (h : build t = .ok u) :
    ∃ b : TableBuilder, b.Reached ∧ b.finish = .ok u := by
  rw [build] at h
  obtain ⟨b₀, hstart, h⟩ := except_bind_eq_ok.mp h
  obtain ⟨b₁, hcolumns, h⟩ := except_bind_eq_ok.mp h
  obtain ⟨b₂, hid, hfinish⟩ := except_bind_eq_ok.mp h
  exact ⟨b₂, ((Reached.start hstart).addColumns hcolumns).declareId hid, hfinish⟩

end TableBuilder

/-- A table is lawful in either way. -/
theorem Table.Defined.lawful {t : Table} (h : t.Defined) : t.Lawful := by
  rcases h with h | ⟨b, hb, h⟩
  · exact check_eq_ok_iff.mp h
  · obtain ⟨-, rfl⟩ := TableBuilder.finish_eq_ok_iff.mp h
    exact hb.lawful

/-! ### Catalogs -/

namespace Catalog

/-- What is asked of a catalog however it is made: lawful tables that differ by name, and
relations whose key columns pair up and are columns of their two tables. -/
structure Lawful (c : Catalog) : Prop where
  tables : ∀ t ∈ c.tables, t.Lawful
  distinct : (c.tables.map Table.name).Nodup
  relations : ∀ r ∈ c.relations, r.sourceKeys ≠ [] ∧ r.sourceKeys.length = r.targetKeys.length ∧
    c.HasColumns r.source r.sourceKeys ∧ c.HasColumns r.target r.targetKeys

/-- A lawful catalog of well-formed tables. -/
structure WellFormed (c : Catalog) : Prop extends Lawful c where
  wellFormed : ∀ t ∈ c.tables, t.WellFormed

theorem Lawful.wellFormed_iff {c : Catalog} (h : c.Lawful) :
    c.WellFormed ↔ ∀ t ∈ c.tables, t.columns ≠ [] :=
  ⟨fun hwf t ht => (hwf.wellFormed t ht).nonempty,
    fun hne => ⟨h, fun t ht => (h.tables t ht).wellFormed_iff.mpr (hne t ht)⟩⟩

theorem name_not_mem_of_addTable {c c' : Catalog} {t : Table} (h : c.addTable t = .ok c') :
    t.name ∉ c.tables.map Table.name := by
  rw [addTable] at h
  split at h
  · cases h
  rename_i hnew
  rw [hasTable, table?, List.find?_isSome] at hnew
  intro hmem
  obtain ⟨u, hu, hname⟩ := List.mem_map.mp hmem
  exact hnew ⟨u, hu, beq_iff_eq.mpr hname⟩

theorem sourceKeys_ne_nil_of_addRelation {c c' : Catalog} {r : Relation}
    (h : c.addRelation r = .ok c') : r.sourceKeys ≠ [] := by
  rw [addRelation] at h
  obtain ⟨hunpaired, -⟩ := except_guard_eq_ok.mp h
  simp only [Bool.or_eq_true, List.isEmpty_iff, not_or] at hunpaired
  exact hunpaired.1

/-- **Growing keeps a catalog lawful.** -/
theorem Built.lawful {c : Catalog} (h : c.Built) : c.Lawful := by
  refine ⟨?_, ?_, ?_⟩
  · induction h with
    | empty => exact nofun
    | table _ hdef hadd ih =>
      rw [addTable_eq_ok hadd]
      exact List.forall_mem_append.mpr ⟨ih, List.forall_mem_singleton.mpr hdef.lawful⟩
    | relation _ hadd ih =>
      obtain ⟨-, -, rfl⟩ := addRelation_eq_ok hadd
      exact ih
  · induction h with
    | empty => exact List.nodup_nil
    | table _ _ hadd ih =>
      rw [addTable_eq_ok hadd, List.map_append]
      exact nodup_append_singleton.mpr ⟨name_not_mem_of_addTable hadd, ih⟩
    | relation _ hadd ih =>
      obtain ⟨-, -, rfl⟩ := addRelation_eq_ok hadd
      exact ih
  · have hkeys : ∀ r ∈ c.relations, r.sourceKeys ≠ [] := by
      induction h with
      | empty => exact nofun
      | table _ _ hadd ih =>
        rw [addTable_eq_ok hadd]
        exact ih
      | relation _ hadd ih =>
        have hne := sourceKeys_ne_nil_of_addRelation hadd
        obtain ⟨-, -, rfl⟩ := addRelation_eq_ok hadd
        exact List.forall_mem_append.mpr ⟨ih, List.forall_mem_singleton.mpr hne⟩
    exact fun r hr => ⟨hkeys r hr, h.paired r hr, h.hasColumns r hr⟩

/-! #### Made step by step -/

/-- The catalogs that are made step by step, of tables that were. -/
inductive Stepwise : Catalog → Prop
  | empty : Stepwise {}
  | table {c c' : Catalog} {b : TableBuilder} {t : Table} :
      Stepwise c → b.Reached → b.finish = .ok t → c.addTable t = .ok c' → Stepwise c'
  | relation {c c' : Catalog} {r : Relation} :
      Stepwise c → c.addRelation r = .ok c' → Stepwise c'

theorem Stepwise.built {c : Catalog} (h : c.Stepwise) : c.Built := by
  induction h with
  | empty => exact .empty
  | table _ hb hfinish hadd ih => exact .table ih (Or.inr ⟨_, hb, hfinish⟩) hadd
  | relation _ hadd ih => exact .relation ih hadd

/-- **What is made step by step is well formed.** -/
theorem Stepwise.wellFormed {c : Catalog} (h : c.Stepwise) : c.WellFormed := by
  refine h.built.lawful.wellFormed_iff.mpr ?_
  induction h with
  | empty => exact nofun
  | table _ _ hfinish hadd ih =>
    obtain ⟨hne, rfl⟩ := TableBuilder.finish_eq_ok_iff.mp hfinish
    rw [addTable_eq_ok hadd]
    exact List.forall_mem_append.mpr ⟨ih, List.forall_mem_singleton.mpr hne⟩
  | relation _ hadd ih =>
    obtain ⟨-, -, rfl⟩ := addRelation_eq_ok hadd
    exact ih

/-! #### The same definitions in both ways -/

/-- Puts the catalog of some definitions together step by step. -/
def build (tables : List Table) (relations : List Relation) : Except Error Catalog := do
  let c ← tables.foldlM (fun c t => do c.addTable (← TableBuilder.build t)) {}
  relations.foldlM addRelation c

/-- Both ways put the same tables together, but for those without columns. -/
theorem addTables_eq_ok_iff {tables : List Table} {c' : Catalog} : ∀ {c : Catalog},
    tables.foldlM (fun c t => do c.addTable (← TableBuilder.build t)) c = .ok c' ↔
      tables.foldlM (fun c t => do t.check; c.addTable t) c = .ok c' ∧
        ∀ t ∈ tables, t.columns ≠ [] := by
  induction tables with
  | nil => simp
  | cons t rest ih =>
    intro c
    simp only [List.foldlM_cons, except_bind_eq_ok, ih, List.forall_mem_cons,
      TableBuilder.build_eq_ok_iff]
    constructor
    · rintro ⟨c₁, ⟨u, ⟨⟨hlawful, hne⟩, rfl⟩, hadd⟩, hrest, hothers⟩
      exact ⟨⟨c₁, ⟨(), Table.check_eq_ok_iff.mpr hlawful, hadd⟩, hrest⟩, hne, hothers⟩
    · rintro ⟨⟨c₁, ⟨_, hcheck, hadd⟩, hrest⟩, hne, hothers⟩
      have hlawful := Table.check_eq_ok_iff.mp hcheck
      exact ⟨c₁, ⟨t, ⟨⟨hlawful, hne⟩, rfl⟩, hadd⟩, hrest, hothers⟩

theorem build_eq_ok_iff {tables : List Table} {relations : List Relation} {c : Catalog} :
    build tables relations = .ok c ↔
      ofDefinitions tables relations = .ok c ∧ ∀ t ∈ tables, t.columns ≠ [] := by
  rw [build, ofDefinitions, except_bind_eq_ok, except_bind_eq_ok]
  constructor
  · rintro ⟨c₁, htables, hrelations⟩
    obtain ⟨htables, hne⟩ := addTables_eq_ok_iff.mp htables
    exact ⟨⟨c₁, htables, hrelations⟩, hne⟩
  · rintro ⟨⟨c₁, htables, hrelations⟩, hne⟩
    exact ⟨c₁, addTables_eq_ok_iff.mpr ⟨htables, hne⟩, hrelations⟩

theorem stepwise_of_foldlM_tables {tables : List Table} {c c' : Catalog} (hc : c.Stepwise)
    (h : tables.foldlM (fun c t => do c.addTable (← TableBuilder.build t)) c = .ok c') :
    c'.Stepwise := by
  refine invariant_of_foldlM (fun t _ c c' hc hstep => ?_) hc h
  obtain ⟨u, hbuild, hadd⟩ := except_bind_eq_ok.mp hstep
  obtain ⟨b, hb, hfinish⟩ := TableBuilder.exists_reached_of_build hbuild
  exact .table hc hb hfinish hadd

theorem stepwise_of_foldlM_relations {relations : List Relation} {c c' : Catalog}
    (hc : c.Stepwise) (h : relations.foldlM addRelation c = .ok c') : c'.Stepwise :=
  invariant_of_foldlM (fun _ _ _ _ hc hadd => .relation hc hadd) hc h

theorem stepwise_of_build {tables : List Table} {relations : List Relation} {c : Catalog}
    (h : build tables relations = .ok c) : c.Stepwise := by
  obtain ⟨c₁, htables, hrelations⟩ := except_bind_eq_ok.mp h
  exact stepwise_of_foldlM_relations (stepwise_of_foldlM_tables .empty htables) hrelations

/-- **Catalogs are well formed by construction.** What is made step by step is well formed. What is
read from a document is lawful, and its tables can identify their rows but for those without
columns. Complete definitions and steps accept the same tables and relations, again but for tables
without columns. -/
theorem wellFormed_by_construction (c : Catalog) (text : String) (tables : List Table)
    (relations : List Relation) :
    (c.Stepwise → c.WellFormed) ∧
    (read text = .ok c →
      c.Lawful ∧ ∀ t ∈ c.tables, t.idColumn ∈ t.columnNames ↔ t.columns ≠ []) ∧
    (build tables relations = .ok c ↔
      ofDefinitions tables relations = .ok c ∧ ∀ t ∈ tables, t.columns ≠ []) := by
  refine ⟨fun h => h.wellFormed, fun h => ?_, build_eq_ok_iff⟩
  have hlawful := (built_of_read h).lawful
  exact ⟨hlawful, fun t ht => (hlawful.tables t ht).idColumn_mem_iff⟩

/-- A document of one table with one column. -/
def usersDocument : String :=
  "\x7b\"tables\":[\x7b\"name\":\"users\",\"columns\":[" ++
    "\x7b\"name\":\"id\",\"type\":\"number\"\x7d]\x7d]\x7d"

theorem wellFormed_by_construction_blog :
    blog.WellFormed ∧ ofDefinitions blog.tables blog.relations = .ok blog ∧
      ∃ c, read usersDocument = .ok c ∧ c.Lawful := by
  have hbuild : build blog.tables blog.relations = .ok blog := by decide +kernel
  have hread : read usersDocument =
      .ok { tables := [⟨"users", [⟨"id", .number, false⟩], none⟩] } := by
    decide +kernel
  obtain ⟨hstepwise, -, hsame⟩ :=
    wellFormed_by_construction blog usersDocument blog.tables blog.relations
  obtain ⟨-, hdocument, -⟩ := wellFormed_by_construction _ usersDocument [] []
  exact ⟨hstepwise (stepwise_of_build hbuild), (hsame.mp hbuild).1, _, hread, (hdocument hread).1⟩

/-- A document of a table without columns. -/
def columnlessDocument : String :=
  "\x7b\"tables\":[\x7b\"name\":\"t\",\"columns\":[]\x7d]\x7d"

/-- Reading lets a table without columns through. The column that should identify its rows does
not exist, and nobody can build it step by step. -/
theorem not_wellFormed_of_read :
    ∃ c t, read columnlessDocument = .ok c ∧ t ∈ c.tables ∧ t.columns = [] ∧
      t.idColumn ∉ t.columnNames ∧ ofDefinitions c.tables c.relations = .ok c ∧
      ∀ c', build c.tables c.relations ≠ .ok c' := by
  refine ⟨{ tables := [⟨"t", [], none⟩] }, ⟨"t", [], none⟩, by decide +kernel,
    List.mem_singleton.mpr rfl, rfl, by decide, by decide +kernel, fun c' h => ?_⟩
  exact (build_eq_ok_iff.mp h).2 ⟨"t", [], none⟩ (List.mem_singleton.mpr rfl) rfl

end Catalog

end TableQuery
