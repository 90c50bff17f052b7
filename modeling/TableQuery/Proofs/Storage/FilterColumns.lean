import TableQuery.Execution.Plan
import TableQuery.Execution.Pushdown
import TableQuery.Execution.Relations

/-!
# The columns that filters read

Filters are put together in four places – a pushed condition, a connective that is
pushed down, a tuple that is looked up, and a list of keys that is loaded – and what
access control has to know of each is only which columns the result reads.
Collapsing and flattening change nothing about that
(`TableQuery.StorageFilter.columns_conj`, `TableQuery.StorageFilter.columns_mergeAnd`),
so a pushed filter reads exactly columns that conditions of the expression name
(`TableQuery.StorageFilter.named_of_mem_columns`).
-/

namespace TableQuery

namespace StorageFilter

/-! ### Putting filters together -/

theorem columnsOf_append (fs gs : List StorageFilter) :
    columnsOf (fs ++ gs) = columnsOf fs ++ columnsOf gs := by
  induction fs with
  | nil => rfl
  | cons f fs ih => simp [columnsOf, ih]

/-- The columns of a list of filters are those of its members. -/
theorem mem_columnsOf {column : String} {fs : List StorageFilter} :
    column ∈ columnsOf fs ↔ ∃ f ∈ fs, column ∈ f.columns := by
  induction fs with
  | nil => simp [columnsOf]
  | cons f fs ih => simp [columnsOf, ih]

theorem columnsOf_singleton (f : StorageFilter) : columnsOf [f] = f.columns := by
  simp [columnsOf]

theorem columns_conj (fs : List StorageFilter) : (conj fs).columns = columnsOf fs := by
  match fs with
  | [] => rfl
  | [f] => exact (columnsOf_singleton f).symm
  | _ :: _ :: _ => rfl

theorem columns_disj (fs : List StorageFilter) : (disj fs).columns = columnsOf fs := by
  match fs with
  | [] => rfl
  | [f] => exact (columnsOf_singleton f).symm
  | _ :: _ :: _ => rfl

/-- What holds of the columns of all alternatives holds of those of the disjunction. -/
theorem forall_columns_disj {α : Type} {items : List α} {filter : α → StorageFilter}
    {P : String → Prop} (h : ∀ a ∈ items, ∀ column ∈ (filter a).columns, P column) :
    ∀ column ∈ (disj (items.map filter)).columns, P column := by
  intro column hcolumn
  rw [columns_disj, mem_columnsOf] at hcolumn
  obtain ⟨f, hf, hcolumn⟩ := hcolumn
  obtain ⟨a, ha, rfl⟩ := List.mem_map.mp hf
  exact h a ha column hcolumn

theorem columnsOf_conjuncts (f : StorageFilter) : columnsOf f.conjuncts = f.columns := by
  cases f with
  | and fs => rfl
  | eq | search | range | or => exact columnsOf_singleton _

theorem columnsOf_disjuncts (f : StorageFilter) : columnsOf f.disjuncts = f.columns := by
  cases f with
  | or fs => rfl
  | eq | search | range | and => exact columnsOf_singleton _

theorem columns_mergeAnd (l r : StorageFilter) :
    (mergeAnd l r).columns = l.columns ++ r.columns := by
  rw [mergeAnd, columns, columnsOf_append, columnsOf_conjuncts, columnsOf_conjuncts]

theorem columns_mergeOr (l r : StorageFilter) :
    (mergeOr l r).columns = l.columns ++ r.columns := by
  rw [mergeOr, columns, columnsOf_append, columnsOf_disjuncts, columnsOf_disjuncts]

/-! ### Pushed conditions -/

theorem columns_typed? {column : Column} {text : String} {f : StorageFilter}
    (h : typed? column text = some f) : f.columns = [column.name] := by
  rw [typed?] at h
  split at h
  · obtain ⟨x, -, rfl⟩ := Option.map_eq_some_iff.mp h
    rfl
  · obtain ⟨n, -, rfl⟩ := Option.map_eq_some_iff.mp h
    rfl
  · obtain ⟨b, -, rfl⟩ := Option.map_eq_some_iff.mp h
    rfl
  · obtain ⟨lower, -, h⟩ := Option.bind_eq_some_iff.mp h
    obtain ⟨upper, -, h⟩ := Option.bind_eq_some_iff.mp h
    cases h
    rfl
  · exact absurd h (by simp)

theorem columns_ofCondition? {column : Column} {literal : Literal} {f : StorageFilter}
    (h : ofCondition? column literal = some f) : f.columns = [column.name] := by
  unfold ofCondition? at h
  split at h
  · split at h
    · cases h
      rfl
    · split at h
      · exact columns_typed? h
      · exact absurd h (by simp)
  · split at h
    · obtain ⟨lower, -, h⟩ := Option.bind_eq_some_iff.mp h
      obtain ⟨upper, -, h⟩ := Option.bind_eq_some_iff.mp h
      cases h
      rfl
    · exact absurd h (by simp)
  · exact absurd h (by simp)

/-- What it takes for an atom to be pushed down: it is a condition on one column of
the table at hand. -/
theorem ofAtom?_eq_some {t : Table} {a : Atom} {f : StorageFilter} (h : ofAtom? t a = some f) :
    ∃ name literal column, a = .condition t.name (some [name]) literal ∧
      t.column? name = some column ∧ ofCondition? column literal = some f := by
  unfold ofAtom? at h
  split at h
  · rename_i table name literal
    split at h
    · rename_i htable
      obtain ⟨column, hcolumn, h⟩ := Option.bind_eq_some_iff.mp h
      rw [beq_iff_eq] at htable
      exact ⟨name, literal, column, by rw [htable], hcolumn, h⟩
    · exact absurd h (by simp)
  · exact absurd h (by simp)

/-- **A pushed filter reads what conditions name**: each of its columns is the only
column of some condition on the table at hand. -/
theorem named_of_mem_columns {t : Table} {e : Expression} {f : StorageFilter}
    (h : ofExpression? t e = some f) : ∀ name ∈ f.columns,
      ∃ literal, .condition t.name (some [name]) literal ∈ e.atoms := by
  induction e generalizing f with
  | and l r ihl ihr | or l r ihl ihr =>
    obtain ⟨fl, hl, h⟩ := Option.bind_eq_some_iff.mp h
    obtain ⟨fr, hr, h⟩ := Option.bind_eq_some_iff.mp h
    cases h
    -- merging puts the columns of the two sides behind each other, for either connective
    intro name hname
    first | rw [columns_mergeAnd] at hname | rw [columns_mergeOr] at hname
    rcases List.mem_append.mp hname with hname | hname
    · obtain ⟨literal, hmem⟩ := ihl hl name hname
      exact ⟨literal, List.mem_append_left _ hmem⟩
    · obtain ⟨literal, hmem⟩ := ihr hr name hname
      exact ⟨literal, List.mem_append_right _ hmem⟩
  | not e => exact absurd h (by simp [ofExpression?])
  | atom a =>
    obtain ⟨name, literal, column, rfl, hcolumn, hf⟩ := ofAtom?_eq_some h
    have hname : column.name = name := by simpa using List.find?_some hcolumn
    intro other hother
    rw [columns_ofCondition? hf, hname, List.mem_singleton] at hother
    exact ⟨literal, by rw [hother]; exact List.mem_singleton_self _⟩

/-! ### Tuples -/

theorem columns_tupleFilter (path : RelationPath) (row : Row) :
    ∀ column ∈ (path.tupleFilter row).columns, column ∈ path.remoteKeys := by
  rw [RelationPath.tupleFilter, columns_conj]
  generalize path.localKeys = names
  generalize path.remoteKeys = keys
  induction keys generalizing names with
  | nil => simp [columnsOf]
  | cons key keys ih =>
    cases names with
    | nil => simp [columnsOf]
    | cons name names =>
      intro column hcolumn
      rcases List.mem_append.mp hcolumn with h | h
      · obtain rfl := List.mem_singleton.mp h
        exact List.mem_cons_self ..
      · exact List.mem_cons_of_mem _ (ih names column h)

end StorageFilter

end TableQuery
