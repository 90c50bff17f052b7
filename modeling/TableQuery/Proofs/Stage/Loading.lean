import TableQuery.Proofs.Access.Noninterference
import TableQuery.Proofs.Fetching.Transcripts
import TableQuery.Proofs.Json.Ascending
import TableQuery.Proofs.Relations.Lookup

/-!
# Loading is a semijoin

The stage `load` takes the keys out of its input, without nulls and each once, and asks
for the rows whose key column is equal to one of them. What comes back is the semijoin of
the table and the input by loose equality (`TableQuery.Builtin.run_load`): the rows in
their order, each of them once however often it is wanted, and cut down to the columns
that are granted.

The filter of the request is a disjunction of comparisons, none of which can go wrong. So
it says of each row whether the row is wanted (`TableQuery.Builtin.decides_loadFilter`),
and inputs that want the same rows cannot be told apart
(`TableQuery.Builtin.outcome_loadItems_congr`).
-/

namespace TableQuery

/-! ### What is loaded -/

/-- The key cell of the row is there, is not null, and is loosely equal to an item that is not
null either. -/
def isWanted (key : String) (items : List Json) (row : Row) : Bool :=
  (row.get? key).any fun cell =>
    !cell.isNull && items.any fun item => !item.isNull && cell.looseEq item

/-- The second row is the first, cut down to the names that are granted. -/
structure RestrictsTo (granted : String → Prop) (row restricted : Row) : Prop where
  ascending : Fields.Ascending restricted
  cells : ∀ name cell,
    restricted.get? name = some cell ↔ granted name ∧ row.get? name = some cell

/-- The lists have the same items up to loose equality, nulls aside, in any order and as often
as may be. -/
structure SameItems (items others : List Json) : Prop where
  found : ∀ item ∈ items, item.isNull = false →
    ∃ other ∈ others, other.isNull = false ∧ item.looseEq other = true
  back : ∀ other ∈ others, other.isNull = false →
    ∃ item ∈ items, item.isNull = false ∧ item.looseEq other = true

theorem isWanted_iff {key : String} {items : List Json} {row : Row} :
    isWanted key items row = true ↔
      ∃ cell, HasCell row key cell ∧
        ∃ item ∈ items, item.isNull = false ∧ cell.key = item.key := by
  simp only [isWanted, HasCell, Option.any_eq_true, Bool.and_eq_true, Bool.not_eq_true',
    List.any_eq_true, Json.looseEq, beq_iff_eq]
  exact exists_congr fun cell => and_assoc.symm

theorem all_isNull_iff {items : List Json} :
    items.all Json.isNull = true ↔ ¬∃ item ∈ items, item.isNull = false := by
  simp

/-- What is said of an item by its key is said of an item of the other list. -/
theorem SameItems.exists_key_iff {items others : List Json} (h : SameItems items others)
    {P : String → Prop} :
    (∃ item ∈ items, item.isNull = false ∧ P item.key) ↔
      ∃ other ∈ others, other.isNull = false ∧ P other.key := by
  constructor
  · rintro ⟨item, hitem, hnull, hP⟩
    obtain ⟨other, hother, hnull', hloose⟩ := h.found item hitem hnull
    exact ⟨other, hother, hnull', Json.looseEq_iff.mp hloose ▸ hP⟩
  · rintro ⟨other, hother, hnull, hP⟩
    obtain ⟨item, hitem, hnull', hloose⟩ := h.back other hother hnull
    exact ⟨item, hitem, hnull', (Json.looseEq_iff.mp hloose).symm ▸ hP⟩

theorem SameItems.isWanted_eq {items others : List Json} (h : SameItems items others)
    (key : String) (row : Row) : isWanted key items row = isWanted key others row := by
  rw [Bool.eq_iff_iff, isWanted_iff, isWanted_iff]
  exact exists_congr fun cell => and_congr_right fun _ => h.exists_key_iff

theorem SameItems.all_isNull_eq {items others : List Json} (h : SameItems items others) :
    items.all Json.isNull = others.all Json.isNull := by
  have hsome := h.exists_key_iff (P := fun _ => True)
  simp only [and_true] at hsome
  rw [Bool.eq_iff_iff, all_isNull_iff, all_isNull_iff, hsome]

theorem restrictsTo_projectRow {columns : List String} {granted : String → Prop}
    (h : ∀ name, name ∈ columns ↔ granted name) (row : Row) :
    RestrictsTo granted row (Store.projectRow columns row) where
  ascending := Fields.ascending_ofList _
  cells name cell := by
    rw [Store.get?_projectRow, ← h]
    by_cases hname : name ∈ columns <;> simp [hname]

namespace Builtin

variable {scope : StageScope} {args : Arguments} {input value : Json} {items others : List Json}

/-! ### The request -/

/-- The keys of a list of items. -/
def loadKeys (items : List Json) : List Json :=
  Json.firstBy Json.key [] (items.filter fun v => !v.isNull)

/-- The filter that asks for the rows of a list of items. -/
def loadFilter (key : String) (items : List Json) : StorageFilter :=
  .disj ((loadKeys items).map fun value => .eq key value)

/-- The keys are those of the items that are not null. -/
theorem exists_mem_loadKeys_iff {k : String} :
    (∃ value ∈ loadKeys items, value.key = k) ↔
      ∃ item ∈ items, item.isNull = false ∧ item.key = k := by
  constructor
  · rintro ⟨value, hvalue, hk⟩
    obtain ⟨hitem, hnull⟩ := List.mem_filter.mp (Json.mem_of_mem_firstBy hvalue)
    exact ⟨value, hitem, by simpa using hnull, hk⟩
  · rintro ⟨item, hitem, hnull, rfl⟩
    exact Json.exists_mem_firstBy Json.key
      (List.mem_filter.mpr ⟨hitem, by simpa using hnull⟩) List.not_mem_nil

theorem loadKeys_eq_nil_iff : loadKeys items = [] ↔ items.all Json.isNull = true := by
  rw [all_isNull_iff, List.eq_nil_iff_forall_not_mem]
  constructor
  · rintro h ⟨item, hitem, hnull⟩
    obtain ⟨value, hvalue, -⟩ := exists_mem_loadKeys_iff.mpr ⟨item, hitem, hnull, rfl⟩
    exact h value hvalue
  · intro h value hvalue
    obtain ⟨item, hitem, hnull, -⟩ := exists_mem_loadKeys_iff.mp ⟨value, hvalue, rfl⟩
    exact h ⟨item, hitem, hnull⟩

/-- **The filter says which rows are wanted.** -/
theorem decides_loadFilter (key : String) (items : List Json) (row : Row) :
    ((loadFilter key items).eval row).Decides (isWanted key items row = true) := by
  rw [loadFilter, StorageFilter.eval_disj]
  refine (StorageFilter.decides_evalAny_map fun value _ =>
    StorageFilter.decides_eval_eq key value).of_iff ?_
  rw [isWanted_iff]
  constructor
  · rintro ⟨value, hvalue, cell, hcell, hkey⟩
    obtain ⟨item, hitem, hnull, heq⟩ := exists_mem_loadKeys_iff.mp ⟨value, hvalue, rfl⟩
    exact ⟨cell, hcell, item, hitem, hnull, hkey.trans heq.symm⟩
  · rintro ⟨cell, hcell, item, hitem, hnull, hkey⟩
    obtain ⟨value, hvalue, heq⟩ := exists_mem_loadKeys_iff.mpr ⟨item, hitem, hnull, rfl⟩
    exact ⟨value, hvalue, cell, hcell, hkey.trans heq.symm⟩

theorem eval_loadFilter (key : String) (items : List Json) (row : Row) :
    (loadFilter key items).eval row = .holds (isWanted key items row) := by
  obtain ⟨b, hb, hiff⟩ := decides_loadFilter key items row
  rw [hb, Bool.eq_iff_iff.mpr hiff]

theorem filter_lets_loadFilter {call : FetchCall} {key : String}
    (hfilter : call.filter = some (loadFilter key items)) (rows : List Row) :
    rows.filter (Store.Lets call) = rows.filter (isWanted key items) := by
  refine List.filter_congr fun row _ => ?_
  rw [Store.Lets, hfilter, Option.map_some, Option.getD_some, eval_loadFilter]
  cases isWanted key items row <;> rfl

/-! ### A run of the stage -/

/-- The key column of a load. -/
def keyColumn (args : Arguments) (t : Table) : String :=
  (args.string? "key").getD t.idColumn

theorem transcript_fetchRows {call : FetchCall} {log : List (FetchCall × FetchAnswer)}
    {rows : List Row} (h : (fetchRows scope call).Transcript log (.ok rows)) :
    log = [(call, .ok rows)] := by
  obtain ⟨_, -, h⟩ := Fetching.transcript_lift_bind_iff.mp h
  obtain ⟨_, -, h⟩ := Fetching.transcript_lift_bind_iff.mp h
  obtain ⟨t, -, h⟩ := Fetching.transcript_lift_bind_iff.mp h
  split at h
  · cases h
  · obtain ⟨_, -, h⟩ := Fetching.transcript_lift_bind_iff.mp h
    exact Fetching.transcript_request_iff.mp h

/-- **A run that succeeds** has nothing to load, or loads by one request. -/
theorem transcript_loadItems {log : List (FetchCall × FetchAnswer)}
    (h : (loadItems scope args input).Transcript log (.ok value)) :
    ∃ table t items, args.string? "table" = some table ∧ scope.catalog.table? table = some t ∧
      inputItems "load" input = .ok items ∧
      ((loadKeys items = [] ∧ log = [] ∧ value = .arr []) ∨
        (loadKeys items ≠ [] ∧ ∃ policy rows, scope.whitelist.policy? table = some policy ∧
          log = [(⟨table, t.columnNames.filter policy.grants,
            some (loadFilter (keyColumn args t) items)⟩, .ok rows)] ∧
          value = .arr (rows.map .obj))) := by
  unfold loadItems at h
  split at h
  · cases h
  rename_i table htable
  obtain ⟨t, ht, h⟩ := Fetching.transcript_lift_bind_iff.mp h
  obtain ⟨items, hitems, h⟩ := Fetching.transcript_lift_bind_iff.mp h
  refine ⟨table, t, items, htable, Catalog.table_eq_ok.mp ht, hitems, ?_⟩
  dsimp only at h
  split at h
  · rename_i hempty
    obtain ⟨rfl, hvalue⟩ := Fetching.transcript_done_iff.mp h
    exact .inl ⟨List.isEmpty_iff.mp hempty, rfl, Except.ok.inj hvalue⟩
  rename_i hkeys
  split at h
  · cases h
  rename_i policy hpolicy
  split at h
  · cases h
  obtain ⟨rows, front, rest, hrows, hdone, rfl⟩ := Fetching.transcript_bind_iff.mp h
  obtain ⟨rfl, hvalue⟩ := Fetching.transcript_done_iff.mp hdone
  refine .inr ⟨fun hnil => hkeys (List.isEmpty_iff.mpr hnil), policy, rows, hpolicy, ?_,
    Except.ok.inj hvalue⟩
  rw [transcript_fetchRows hrows]
  rfl

theorem outcome_fetchRows_congr (scope : StageScope) {source : FetchCall → FetchAnswer}
    {table : String} {columns : List String} {filter filter' : Option StorageFilter}
    (h : source ⟨table, columns, filter⟩ = source ⟨table, columns, filter'⟩) :
    (fetchRows scope ⟨table, columns, filter⟩).outcome source =
      (fetchRows scope ⟨table, columns, filter'⟩).outcome source := by
  simp only [fetchRows, Fetching.outcome_bind, Fetching.outcome_lift]
  refine congrArg _ (funext fun _ => congrArg _ (funext fun _ => congrArg _ (funext fun t => ?_)))
  split
  · rfl
  · simp only [Fetching.outcome_bind, Fetching.outcome_lift, Fetching.request,
      Fetching.outcome_fetch, h]

/-- Inputs with the same items ask for the same rows. -/
theorem fetch_loadFilter_congr (store : Store) (table : String) (columns : List String)
    (key : String) (hsame : SameItems items others) :
    store.fetch ⟨table, columns, some (loadFilter key items)⟩ =
      store.fetch ⟨table, columns, some (loadFilter key others)⟩ := by
  have hselect : ∀ rows, Store.select ⟨table, columns, some (loadFilter key items)⟩ rows =
      Store.select ⟨table, columns, some (loadFilter key others)⟩ rows := by
    intro rows
    induction rows with
    | nil => rfl
    | cons row rest ih =>
      simp only [Store.select, Option.map_some, Option.getD_some, eval_loadFilter,
        hsame.isWanted_eq, ih]
  rw [Store.fetch, Store.fetch]
  cases store.rows? table with
  | none => rfl
  | some rows => exact hselect rows

/-- **Inputs with the same items** lead to the same outcome. -/
theorem outcome_loadItems_congr {store : Store} {other : Json}
    (hitems : inputItems "load" input = .ok items) (hothers : inputItems "load" other = .ok others)
    (hsame : SameItems items others) :
    (loadItems scope args input).outcome store.fetch =
      (loadItems scope args other).outcome store.fetch := by
  have hkeys : (loadKeys items).isEmpty = (loadKeys others).isEmpty := by
    rw [Bool.eq_iff_iff, List.isEmpty_iff, List.isEmpty_iff, loadKeys_eq_nil_iff,
      loadKeys_eq_nil_iff, hsame.all_isNull_eq]
  unfold loadItems
  split
  · rfl
  rename_i table htable
  simp only [hitems, hothers, Fetching.outcome_bind, Fetching.outcome_lift]
  refine congrArg _ (funext fun t => ?_)
  simp only [bind, Except.bind]
  rw [← loadKeys, ← loadKeys, hkeys]
  split
  · rfl
  split
  · rfl
  split
  · rfl
  · rename_i policy hpolicy hkey
    have hrows := outcome_fetchRows_congr scope (fetch_loadFilter_congr store table
      (t.columnNames.filter policy.grants) (keyColumn args t) hsame)
    exact (Fetching.outcome_bind _ _).trans
      ((congrArg (· >>= _) hrows).trans (Fetching.outcome_bind _ _).symm)

theorem filter_isWanted_of_all_isNull (hnull : items.all Json.isNull = true) (key : String)
    (rows : List Row) : rows.filter (isWanted key items) = [] := by
  refine List.filter_eq_nil_iff.mpr fun row _ hwanted => ?_
  obtain ⟨cell, -, item, hitem, hnot, -⟩ := isWanted_iff.mp hwanted
  exact all_isNull_iff.mp hnull ⟨item, hitem, hnot⟩

/-- **Loading is a semijoin.** A load that succeeds leads to the stored rows of the table whose
key cell is loosely equal to an item, nulls aside, in stored order and cut down to the granted
columns. It makes one request if there is an item that is not null and none otherwise, and it
leads to the same rows for every input with the same items. -/
theorem run_load {store : Store} {calls : List FetchCall}
    (h : (load.run scope args input).runOn store.fetch = (.ok value, calls)) :
    ∃ table t items rows, args.string? "table" = some table ∧
      scope.catalog.table? table = some t ∧ inputItems "load" input = .ok items ∧
      value = .arr (rows.map .obj) ∧
      List.Forall₂
        (RestrictsTo (Scope.GrantsColumn ⟨scope.catalog, scope.whitelist, scope.allowed⟩ table))
        (((store.rows? table).getD []).filter (isWanted (keyColumn args t) items)) rows ∧
      calls.length = (if items.all Json.isNull then 0 else 1) ∧
      ∀ other others, inputItems "load" other = .ok others → SameItems items others →
        (load.run scope args other).outcome store.fetch = .ok value := by
  have htranscript := Fetching.transcript_runOn (load.run scope args input) store.fetch
  have houtcome : (load.run scope args input).outcome store.fetch = .ok value :=
    congrArg Prod.fst h
  rw [h] at htranscript
  obtain ⟨table, t, items, htable, ht, hitems, hcases⟩ := transcript_loadItems htranscript
  have hsame : ∀ other others, inputItems "load" other = .ok others → SameItems items others →
      (load.run scope args other).outcome store.fetch = .ok value :=
    fun other others hothers hsame =>
      (outcome_loadItems_congr hitems hothers hsame).symm.trans houtcome
  rcases hcases with ⟨hkeys, hlog, rfl⟩ | ⟨hkeys, policy, rows, hpolicy, hlog, rfl⟩
  · have hnull := loadKeys_eq_nil_iff.mp hkeys
    refine ⟨table, t, items, [], htable, ht, hitems, rfl, ?_, ?_, hsame⟩
    · rw [filter_isWanted_of_all_isNull hnull]
      exact .nil
    · have hcalls : calls = [] := List.map_eq_nil_iff.mp hlog
      rw [if_pos hnull, hcalls, List.length_nil]
  · have hgranted : ∀ name, name ∈ t.columnNames.filter policy.grants ↔
        Scope.GrantsColumn ⟨scope.catalog, scope.whitelist, scope.allowed⟩ table name := by
      simp [Scope.GrantsColumn, ht, hpolicy]
    obtain ⟨call, rfl, hcall⟩ := List.map_eq_singleton_iff.mp hlog
    obtain ⟨rfl, hfetch⟩ := Prod.mk.inj hcall
    obtain ⟨stored, hstored, rfl⟩ := Store.fetch_eq_ok hfetch
    refine ⟨table, t, items, _, htable, ht, hitems, rfl, ?_, ?_, hsame⟩
    · rw [hstored, Option.getD_some, filter_lets_loadFilter rfl, List.forall₂_map_right_iff]
      exact List.forall₂_same.mpr fun row _ => restrictsTo_projectRow hgranted row
    · rw [if_neg (mt loadKeys_eq_nil_iff.mpr hkeys)]
      rfl

/-- Three users, one of them with a text for a number. -/
def threeUsers : Store where
  tables := [("users", [[("id", .ofNat 1), ("name", .str "Ada")], [("id", .ofNat 2)],
    [("id", .str "3"), ("name", .str "Eve")]])]

/-- A load of users, whose names are not granted. -/
def loadUsers (items : List Json) : Fetching Json :=
  load.run ⟨.blog, Executor.blogWhitelist, none⟩ [("table", .str "users")] (.arr items)

/-- Two of the users are wanted, one of them twice. The other way round they are the same. -/
theorem run_load_users :
    let items : List Json := [.ofNat 3, .str "1", .null, .ofNat 1]
    let loaded : List Row := [[("id", .ofNat 1)], [("id", .str "3")]]
    (loadUsers items).outcome threeUsers.fetch = .ok (.arr (loaded.map .obj)) ∧
      ((loadUsers items).runOn threeUsers.fetch).2.length = 1 ∧
      List.Forall₂
        (RestrictsTo (Scope.GrantsColumn ⟨.blog, Executor.blogWhitelist, none⟩ "users"))
        (((threeUsers.rows? "users").getD []).filter (isWanted "id" items)) loaded ∧
      (loadUsers items.reverse).outcome threeUsers.fetch = .ok (.arr (loaded.map .obj)) := by
  intro items loaded
  have hrun : (loadUsers items).outcome threeUsers.fetch = .ok (.arr (loaded.map .obj)) := by
    decide +kernel
  obtain ⟨table, t, items', rows, htable, ht, hitems, hvalue, hrows, hcount, hsame⟩ :=
    run_load (Prod.ext hrun rfl)
  obtain rfl : "users" = table := Option.some.inj htable
  obtain rfl : Catalog.blog.tables[0] = t := Option.some.inj ht
  obtain rfl : items = items' := Except.ok.inj hitems
  obtain rfl := List.map_injective_iff.mpr (fun _ _ => Json.obj.inj) (Json.arr.inj hvalue)
  have hloose : ∀ x : Json, x.looseEq x = true := fun x => beq_self_eq_true x.key
  have hreverse : SameItems items items.reverse :=
    ⟨fun item hitem hnull => ⟨item, List.mem_reverse.mpr hitem, hnull, hloose item⟩,
      fun item hitem hnull => ⟨item, List.mem_reverse.mp hitem, hnull, hloose item⟩⟩
  exact ⟨hrun, hcount, hrows, hsame (.arr items.reverse) items.reverse rfl hreverse⟩

end Builtin

end TableQuery
