import TableQuery.Proofs.Fetching.Outcomes
import TableQuery.Proofs.Pushdown.Statements
import TableQuery.Proofs.Relations.TupleKeys
import TableQuery.Proofs.Storage.Merging
import TableQuery.Proofs.Value.FirstOccurrences

/-!
# One request instead of one for each row

A relation is looked up for many rows by a single request. Three things happen on the
way to it and back: rows with the same tuple are looked up once, the tuples become the
filter of the request, and the rows that come back are cut down to their keys and
compared as joined texts. What comes out is what a search of the remote table for each
row by itself would find (`TableQuery.accepts_iff_hasRelated`).

No row is confused with another one by the joined texts as long as the separator is in
none of its own strings. What the strings of other rows hold does not matter.
-/

namespace TableQuery

/-! ### Filters that never go wrong -/

/-- The verdict is no unsupported search, and says whether the proposition is true. -/
def Verdict.Decides (v : Verdict) (p : Prop) : Prop :=
  ∃ b, v = .holds b ∧ (b = true ↔ p)

namespace Verdict.Decides

variable {v w : Verdict} {p q : Prop}

theorem andThen (hv : v.Decides p) (hw : w.Decides q) : (v.andThen w).Decides (p ∧ q) := by
  obtain ⟨b, rfl, hb⟩ := hv
  obtain ⟨c, rfl, hc⟩ := hw
  exact ⟨b && c, andThen_holds b c, by rw [Bool.and_eq_true, hb, hc]⟩

theorem orElse (hv : v.Decides p) (hw : w.Decides q) : (v.orElse w).Decides (p ∨ q) := by
  obtain ⟨b, rfl, hb⟩ := hv
  obtain ⟨c, rfl, hc⟩ := hw
  exact ⟨b || c, orElse_holds b c, by rw [Bool.or_eq_true, hb, hc]⟩

theorem of_iff (hv : v.Decides p) (h : p ↔ q) : v.Decides q := by
  obtain ⟨b, hb, hp⟩ := hv
  exact ⟨b, hb, hp.trans h⟩

end Verdict.Decides

namespace StorageFilter

variable {row stored : Row}

theorem decides_eval_eq (column : String) (value : Json) :
    ((eq column value).eval row).Decides
      (∃ cell, HasCell row column cell ∧ cell.key = value.key) := by
  rw [eval]
  cases hcell : row.get? column with
  | none =>
    refine ⟨false, rfl, ?_⟩
    simp [HasCell, hcell]
  | some cell =>
    refine ⟨!cell.isNull && cell.looseEq value, rfl, ?_⟩
    simp [HasCell, hcell, Json.looseEq]

theorem decides_evalAny_map {α : Type} {f : α → StorageFilter} {p : α → Prop} {xs : List α}
    (h : ∀ x ∈ xs, ((f x).eval row).Decides (p x)) :
    (evalAny row (xs.map f)).Decides (∃ x ∈ xs, p x) := by
  induction xs with
  | nil => exact ⟨false, by rw [List.map_nil, evalAny], by simp⟩
  | cons x xs ih =>
    rw [List.map_cons, evalAny_cons]
    have hx := h x (List.mem_cons_self ..)
    have hxs := ih fun y hy => h y (List.mem_cons_of_mem _ hy)
    exact (hx.orElse hxs).of_iff (by simp)

/-- The columns of a stored row, tested one by one for the cells of a tuple, all pass
exactly where the stored row has the keys of the tuple. -/
theorem decides_evalAll_tuple {localKeys remoteKeys keys : List String}
    (hkeys : cellKeys? row localKeys = some keys) (hlength : localKeys.length = remoteKeys.length) :
    (evalAll stored (List.zipWith (fun remote name => .eq remote ((row.get? name).getD .null))
        remoteKeys localKeys)).Decides (cellKeys? stored remoteKeys = some keys) := by
  induction localKeys generalizing remoteKeys keys with
  | nil =>
    obtain rfl := Option.some.inj hkeys
    obtain rfl := List.length_eq_zero_iff.mp hlength.symm
    exact ⟨true, by rw [List.zipWith_nil_left, evalAll], by simp [cellKeys?]⟩
  | cons name localKeys ih =>
    cases remoteKeys with
    | nil => cases hlength
    | cons remote remoteKeys =>
      obtain ⟨cell, rest, hcell, hrest, rfl⟩ := cellKeys?_cons_eq_some.mp hkeys
      rw [List.zipWith_cons_cons, evalAll_cons, hcell.1, Option.getD_some]
      refine ((decides_eval_eq remote cell).andThen
        (ih hrest (Nat.succ.inj hlength))).of_iff ?_
      rw [cellKeys?_cons_eq_some]
      constructor
      · rintro ⟨⟨other, hother, hkey⟩, hothers⟩
        exact ⟨other, rest, hother, hothers, by rw [hkey]⟩
      · rintro ⟨other, others, hother, hothers, heq⟩
        obtain ⟨hkey, rfl⟩ := List.cons.inj heq
        exact ⟨⟨other, hother, hkey.symm⟩, hothers⟩

end StorageFilter

/-! ### Rows that are looked up -/

namespace RelationPath

variable {path : RelationPath} {rows : List Row} {row stored : Row}

/-- A row that is looked up is one of the rows, with all its key cells. -/
theorem of_mem_probes (h : row ∈ path.probes rows) :
    row ∈ rows ∧ ∃ keys, cellKeys? row path.localKeys = some keys := by
  obtain ⟨hrow, hkey⟩ := List.mem_filter.mp (Json.mem_of_mem_firstBy h)
  obtain ⟨key, hkey⟩ := Option.isSome_iff_exists.mp hkey
  obtain ⟨keys, hkeys, -⟩ := tupleKey?_eq_some.mp hkey
  exact ⟨hrow, keys, hkeys⟩

/-- For each row with all its key cells some row is looked up that has the same tuple
key. -/
theorem exists_probe (hrow : row ∈ rows) {key : String}
    (hkey : tupleKey? row path.localKeys = some key) :
    ∃ probe ∈ path.probes rows, tupleKey? probe path.localKeys = some key := by
  have hmem : row ∈ rows.filter fun row => (tupleKey? row path.localKeys).isSome :=
    List.mem_filter.mpr ⟨hrow, by rw [hkey]; rfl⟩
  obtain ⟨probe, hprobe, heq⟩ :=
    Json.exists_mem_firstBy (fun row => tupleKey? row path.localKeys) hmem List.not_mem_nil
  exact ⟨probe, hprobe, heq.trans hkey⟩

/-- **The request asks for the right rows**: its filter lets a stored row through
exactly where it has the keys of one of the rows that are looked up. -/
theorem lets_lookup (hpaired : path.localKeys.length = path.remoteKeys.length) :
    Store.Lets (path.lookup (path.probes rows)) stored = true ↔
      ∃ probe ∈ path.probes rows, ∃ keys, cellKeys? probe path.localKeys = some keys ∧
        cellKeys? stored path.remoteKeys = some keys := by
  have hdecides : ((StorageFilter.disj ((path.probes rows).map path.tupleFilter)).eval
      stored).Decides (∃ probe ∈ path.probes rows, ∃ keys,
        cellKeys? probe path.localKeys = some keys ∧
          cellKeys? stored path.remoteKeys = some keys) := by
    rw [StorageFilter.eval_disj]
    refine StorageFilter.decides_evalAny_map fun probe hprobe => ?_
    obtain ⟨-, keys, hkeys⟩ := of_mem_probes hprobe
    rw [tupleFilter, StorageFilter.eval_conj]
    refine (StorageFilter.decides_evalAll_tuple hkeys hpaired).of_iff ?_
    simp [hkeys]
  obtain ⟨b, hb, hiff⟩ := hdecides
  rw [← hiff]
  simp [Store.Lets, lookup, hb]

end RelationPath

/-! ### Rows that come back -/

namespace Store

variable {store : Store} {call : FetchCall}

/-- A request that succeeds is answered with the rows of its table that its filter lets
through. -/
theorem fetch_eq_ok {answer : List Row} (h : store.fetch call = .ok answer) :
    ∃ rows, store.rows? call.table = some rows ∧
      answer = (rows.filter (Lets call)).map (projectRow call.columns) := by
  cases hrows : store.rows? call.table with
  | none =>
    rw [fetch_of_no_rows hrows] at h
    cases h
  | some rows =>
    rw [fetch_of_rows? hrows] at h
    rcases select_cases call rows with ⟨column, mode, herror⟩ | hok
    · rw [herror] at h
      cases h
    · exact ⟨rows, rfl, Except.ok.inj (h.symm.trans hok)⟩

end Store

theorem cellKeys?_projectRow {columns names : List String} (h : ∀ name ∈ names, name ∈ columns)
    (row : Row) : cellKeys? (Store.projectRow columns row) names = cellKeys? row names := by
  induction names with
  | nil => rfl
  | cons name names ih =>
    rw [cellKeys?, cellKeys?, Store.get?_projectRow, if_pos (h name (List.mem_cons_self ..)),
      ih fun other hother => h other (List.mem_cons_of_mem _ hother)]

theorem tupleKey?_projectRow (names : List String) (row : Row) :
    tupleKey? (Store.projectRow names row) names = tupleKey? row names := by
  rw [tupleKey?, cellKeys?_projectRow (fun _ hname => hname), tupleKey?]

/-! ### Looking up and searching row by row -/

/-- The store has a remote row for the row: in all pairs of key columns both have cells
that are not null and loosely equal. -/
def RelationPath.HasRelated (path : RelationPath) (store : Store) (row : Row) : Prop :=
  ∃ rows, store.rows? path.remoteTable = some rows ∧
    ∃ remote ∈ rows, LooselyMatch row path.localKeys remote path.remoteKeys

theorem RelationCheck.accepts_known {localKeys existing : List String} {row : Row} :
    (known localKeys existing).accepts row = true ↔
      ∃ key, tupleKey? row localKeys = some key ∧ key ∈ existing := by
  rw [accepts]
  cases tupleKey? row localKeys <;> simp

/-- What a lookup that succeeds has found, whether it made a request or had nothing to
look up. -/
theorem existing_of_resolveRelation {scope : Scope} {store : Store} {rows : List Row}
    {direction : Direction} {source target : String} {path : RelationPath}
    (hpath : scope.catalog.path? direction source target = some path) {check : RelationCheck}
    (h : (resolveRelation scope rows direction source target).outcome store.fetch = .ok check) :
    ∃ existing, check = .known path.localKeys existing ∧
      ((path.probes rows = [] ∧ existing = []) ∨
        ∃ remotes, store.rows? path.remoteTable = some remotes ∧
          ∀ key, key ∈ existing ↔ ∃ remote ∈ remotes,
            Store.Lets (path.lookup (path.probes rows)) remote = true ∧
              tupleKey? remote path.remoteKeys = some key) := by
  rw [resolveRelation, hpath] at h
  obtain ⟨_, -, h⟩ := Fetching.outcome_lift_bind_eq_ok.mp h
  obtain ⟨_, -, h⟩ := Fetching.outcome_lift_bind_eq_ok.mp h
  dsimp only at h
  split at h
  · rename_i hempty
    obtain rfl := Except.ok.inj h
    exact ⟨[], rfl, Or.inl ⟨List.isEmpty_iff.mp hempty, rfl⟩⟩
  · obtain ⟨answer, hanswer, h⟩ := Fetching.outcome_bind_eq_ok.mp h
    obtain rfl := Except.ok.inj h
    obtain ⟨remotes, hremotes, rfl⟩ :=
      Store.fetch_eq_ok (Fetching.outcome_request_eq_ok.mp hanswer)
    refine ⟨_, rfl, Or.inr ⟨remotes, hremotes, fun key => ?_⟩⟩
    simp only [List.mem_filterMap, List.mem_map, List.mem_filter]
    constructor
    · rintro ⟨_, ⟨remote, ⟨hremote, hlets⟩, rfl⟩, hkey⟩
      exact ⟨remote, hremote, hlets, (tupleKey?_projectRow _ _).symm.trans hkey⟩
    · rintro ⟨remote, hremote, hlets, hkey⟩
      exact ⟨_, ⟨remote, ⟨hremote, hlets⟩, rfl⟩, (tupleKey?_projectRow _ _).trans hkey⟩

/-- **One lookup for all rows finds for each of them what a search for it alone would
find**, if the separator is in none of its strings. -/
theorem accepts_iff_hasRelated {scope : Scope} {store : Store} {rows : List Row}
    {direction : Direction} {source target : String} {path : RelationPath}
    (hpath : scope.catalog.path? direction source target = some path)
    (hpaired : path.localKeys.length = path.remoteKeys.length) {check : RelationCheck}
    (h : (resolveRelation scope rows direction source target).outcome store.fetch = .ok check)
    {row : Row} (hrow : row ∈ rows) (hfree : SeparatorFree row path.localKeys) :
    check.accepts row = true ↔ path.HasRelated store row := by
  obtain ⟨existing, rfl, hexisting⟩ := existing_of_resolveRelation hpath h
  rw [RelationCheck.accepts_known]
  constructor
  · rintro ⟨key, hkey, hmem⟩
    rcases hexisting with ⟨-, rfl⟩ | ⟨remotes, hremotes, hiff⟩
    · exact absurd hmem List.not_mem_nil
    · obtain ⟨remote, hremote, -, hremoteKey⟩ := (hiff key).mp hmem
      -- the joined texts are equal, and the row itself tells that the tuples are
      have hkeys := cellKeys?_eq_of_tupleKey? hfree hpaired hkey hremoteKey
      exact ⟨remotes, hremotes, remote, hremote, looselyMatch_iff_cellKeys?.mpr hkeys⟩
  · rintro ⟨remotes, hremotes, remote, hremote, hmatch⟩
    obtain ⟨keys, hkeys, hremoteKeys⟩ := looselyMatch_iff_cellKeys?.mp hmatch
    have hkey : tupleKey? row path.localKeys = some (tupleSeparator.intercalate keys) :=
      tupleKey?_eq_some.mpr ⟨keys, hkeys, rfl⟩
    refine ⟨_, hkey, ?_⟩
    obtain ⟨probe, hprobe, hprobeKey⟩ := RelationPath.exists_probe hrow hkey
    rcases hexisting with ⟨hnone, -⟩ | ⟨remotes', hremotes', hiff⟩
    · rw [hnone] at hprobe
      exact absurd hprobe List.not_mem_nil
    · obtain rfl := Option.some.inj (hremotes.symm.trans hremotes')
      -- the row that was looked up in place of this one has the same tuple, not just its text
      obtain ⟨keys', hkeys', hprobeKeys⟩ := cellKeys?_eq_of_tupleKey? hfree rfl hkey hprobeKey
      obtain rfl := Option.some.inj (hkeys.symm.trans hkeys')
      refine (hiff _).mpr ⟨remote, hremote, ?_, tupleKey?_eq_some.mpr ⟨keys, hremoteKeys, rfl⟩⟩
      exact (RelationPath.lets_lookup hpaired).mpr ⟨probe, hprobe, keys, hprobeKeys, hremoteKeys⟩

/-! ### The lookups of a statement -/

/-- Each check is what its relation came to for the rows. -/
def RelationChecks.LookedUp (checks : RelationChecks) (scope : Scope) (rows : List Row)
    (fetch : FetchCall → FetchAnswer) : Prop :=
  ∀ direction source target check, checks.lookup (direction, source, target) = some check →
    (resolveRelation scope rows direction source target).outcome fetch = .ok check

section Statement

variable {scope : Scope} {table : String} {rows : List Row} {fetch : FetchCall → FetchAnswer}
variable {checks final : RelationChecks}

theorem RelationChecks.LookedUp.append (h : checks.LookedUp scope rows fetch)
    {direction : Direction} {source target : String} {check : RelationCheck}
    (hcheck : (resolveRelation scope rows direction source target).outcome fetch = .ok check) :
    (checks ++ [((direction, source, target), check)] : RelationChecks).LookedUp
      scope rows fetch := by
  intro direction' source' target' check' hlookup
  rcases RelationChecks.of_lookup_append hlookup with hold | ⟨hkey, rfl⟩
  · exact h _ _ _ _ hold
  · cases hkey
    exact hcheck

theorem lookup_append_of_isSome {key : Direction × String × String}
    (h : (checks.lookup key).isSome = true) (more : RelationChecks) :
    ((checks ++ more).lookup key).isSome = true := by
  rw [List.lookup_append, Option.isSome_or, h, Bool.true_or]

/-- One atom: what was looked up before stays looked up, and a relation of the table is
looked up then. -/
theorem resolveRelations_cons {a : Atom} {rest : List Atom}
    (h : (resolveRelations scope table rows (a :: rest) checks).outcome fetch = .ok final) :
    ∃ next : RelationChecks,
      (resolveRelations scope table rows rest next).outcome fetch = .ok final ∧
      (checks.LookedUp scope rows fetch → next.LookedUp scope rows fetch) ∧
      (∀ key, (checks.lookup key).isSome = true → (next.lookup key).isSome = true) ∧
      ∀ direction target, a = .relation direction table target →
        (next.lookup (direction, table, target)).isSome = true := by
  cases a with
  | relation direction source target =>
    rw [resolveRelations] at h
    split at h
    · obtain ⟨check, hcheck, h⟩ := Fetching.outcome_bind_eq_ok.mp h
      refine ⟨_, h, fun hchecks => hchecks.append hcheck,
        fun key hkey => lookup_append_of_isSome hkey _, ?_⟩
      rintro _ _ ⟨⟩
      simp [List.lookup_append]
    · rename_i hseen
      refine ⟨checks, h, id, fun _ => id, ?_⟩
      rintro _ _ ⟨⟩
      simpa using hseen
  | condition | never =>
    rw [resolveRelations] at h
    · exact ⟨checks, h, id, fun _ => id, by rintro _ _ ⟨⟩⟩
    · exact fun _ _ _ hrelation => by cases hrelation

/-- What has been looked up stays looked up. -/
theorem isSome_lookup_of_resolveRelations {atoms : List Atom}
    (h : (resolveRelations scope table rows atoms checks).outcome fetch = .ok final)
    {key : Direction × String × String} (hkey : (checks.lookup key).isSome = true) :
    (final.lookup key).isSome = true := by
  induction atoms generalizing checks with
  | nil =>
    obtain rfl := Except.ok.inj h
    exact hkey
  | cons a rest ih =>
    obtain ⟨next, hrest, -, hkeeps, -⟩ := resolveRelations_cons h
    exact ih hrest (hkeeps key hkey)

/-- **Every relation of the table is looked up**, for all the rows. -/
theorem lookedUp_of_resolveRelations {atoms : List Atom}
    (hchecks : checks.LookedUp scope rows fetch)
    (h : (resolveRelations scope table rows atoms checks).outcome fetch = .ok final) :
    final.LookedUp scope rows fetch ∧
      ∀ direction target, .relation direction table target ∈ atoms →
        (final.lookup (direction, table, target)).isSome = true := by
  induction atoms generalizing checks with
  | nil =>
    obtain rfl := Except.ok.inj h
    exact ⟨hchecks, fun _ _ hmem => absurd hmem List.not_mem_nil⟩
  | cons a rest ih =>
    obtain ⟨next, hrest, hlooked, -, hfirst⟩ := resolveRelations_cons h
    obtain ⟨hfinal, hothers⟩ := ih (hlooked hchecks) hrest
    refine ⟨hfinal, fun direction target hmem => ?_⟩
    rcases List.mem_cons.mp hmem with heq | hmem
    · exact isSome_lookup_of_resolveRelations hrest (hfirst direction target heq.symm)
    · exact hothers direction target hmem

end Statement

end TableQuery
