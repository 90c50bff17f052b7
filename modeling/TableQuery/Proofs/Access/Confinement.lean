import TableQuery.Proofs.Batch.Requests
import TableQuery.Proofs.Fetching.Transcripts
import TableQuery.Proofs.Json.Fields
import TableQuery.Proofs.Schema.Built
import TableQuery.Proofs.Storage.Frame
import TableQuery.Proofs.Storage.FilterColumns

/-!
# Every request is permitted

A batch reaches the store at three places: the rows of a statement, the remote tables
of its relations, and the stage that loads rows by key. Each place has checks of its
own, made in an order of its own. This file shows that they come to the same thing:
whatever the source answers, every request that a batch can make is one that the
scope permits (`TableQuery.Scope.Permits`) – of a granted and allowed table of the
catalog, for granted columns of it, with a filter that reads no others
(`TableQuery.Executor.everyFetch_runFrom`).

Reading all columns is held to more than a grant of each of them. A statement that
needs all columns fetches nothing at all unless its table is granted as a whole, now
and later (`TableQuery.Executor.everyFetch_of_needsAllColumns`).
-/

namespace TableQuery

open Fetching (EveryFetch everyFetch_lift_bind)

/-! ### What the checks mean -/

namespace Whitelist

variable {w : Whitelist} {table : String}

theorem checkColumns_eq_ok {columns : List String} :
    w.checkColumns table columns = .ok () ↔
      ∃ policy, w.policy? table = some policy ∧ ∀ c ∈ columns, policy.grants c = true := by
  rw [checkColumns]
  cases w.policy? table with
  | none => simp
  | some policy =>
    simp only [Option.some.injEq, exists_eq_left']
    split
    · rename_i hrefused
      simpa using List.filter_eq_nil_iff.mp hrefused
    · rename_i hrefused
      have hnot : ¬∀ c ∈ columns, policy.grants c = true := fun h =>
        hrefused (List.filter_eq_nil_iff.mpr fun c hc => by simp [h c hc])
      simpa using hnot

theorem checkAllColumns_eq_ok :
    w.checkAllColumns table = .ok () ↔ w.policy? table = some .all := by
  rw [checkAllColumns]
  rcases w.policy? table with _ | _ | _ <;> simp

end Whitelist

theorem checkAllowed_eq_ok {table : String} {allowed : Option (List String)} :
    checkAllowed table allowed = .ok () ↔ ∀ tables, allowed = some tables → table ∈ tables := by
  cases allowed with
  | none => simp [checkAllowed]
  | some tables => by_cases h : table ∈ tables <;> simp [checkAllowed, h]

/-- **What a scope permits**: a request for granted columns of a granted and allowed
table of the catalog, whose filter reads no other columns. -/
structure Scope.Permits (scope : Scope) (call : FetchCall) : Prop where
  granted : ∃ policy, scope.whitelist.policy? call.table = some policy ∧
    ∀ column ∈ call.columns, policy.grants column = true
  allowed : ∀ tables, scope.allowed = some tables → call.table ∈ tables
  inCatalog : scope.catalog.HasColumns call.table call.columns
  covered : call.FilterCovered

/-! ### The rows of a statement -/

namespace Statement

variable {s : Statement} {catalog : Catalog} {t : Table} {columns : RequiredColumns}

theorem targetTable_eq_ok {name : String} :
    s.targetTable = .ok name ↔ s.expression.firstTable? = some name := by
  rw [targetTable]
  cases s.expression.firstTable? <;> simp

/-- What the planned columns are. -/
theorem requiredColumns_eq_ok (h : s.requiredColumns catalog t = .ok columns) :
    (∀ name ∈ s.namedColumns catalog t, name ∈ t.columnNames) ∧
      columns = ⟨t.columnNames.filter fun name =>
        s.needsAllColumns t || (s.namedColumns catalog t).contains name, s.needsAllColumns t⟩ := by
  unfold requiredColumns at h
  simp only at h
  split at h
  · exact absurd h (by simp)
  · rename_i hfind
    cases h
    exact ⟨Table.mem_columnNames_of_find?_eq_none hfind, rfl⟩

/-- The planned columns hold everything that the statement names. -/
theorem mem_names_of_mem_namedColumns (h : s.requiredColumns catalog t = .ok columns)
    {name : String} (hname : name ∈ s.namedColumns catalog t) : name ∈ columns.names := by
  obtain ⟨hexist, rfl⟩ := requiredColumns_eq_ok h
  refine List.mem_filter.mpr ⟨hexist name hname, ?_⟩
  rw [List.contains_iff_mem.mpr hname, Bool.or_true]

theorem mem_columnNames_of_mem_names (h : s.requiredColumns catalog t = .ok columns)
    {name : String} (hname : name ∈ columns.names) : name ∈ t.columnNames := by
  obtain ⟨-, rfl⟩ := requiredColumns_eq_ok h
  exact (List.mem_filter.mp hname).1

/-- The column of a condition on the table at hand is one that the statement names. -/
theorem mem_namedColumns_of_condition {names : List String} {literal : Literal} {name : String}
    (h : .condition t.name (some names) literal ∈ s.expression.atoms) (hname : name ∈ names) :
    name ∈ s.namedColumns catalog t := by
  have hon : .condition t.name (some names) literal ∈ s.atomsOn t.name :=
    List.mem_filter.mpr ⟨h, by simp [Atom.table?]⟩
  refine List.mem_append_left _ (List.mem_append_right _ ?_)
  exact List.mem_flatMap.mpr ⟨_, hon, hname⟩

end Statement

/-- A check of stages that comes to a shape has found nothing wrong. -/
theorem Registry.PipelineCheck.isValid_of_result {c : PipelineCheck} {shape : Shape}
    (h : c.result = .ok shape) : c.isValid = true := by
  rw [result] at h
  split at h
  · assumption
  · cases h

namespace Executor

variable {x : Executor} {allowed : Option (List String)} {s : Statement}

/-- Everything that a plan has checked. -/
structure Planned (x : Executor) (allowed : Option (List String)) (s : Statement) (t : Table)
    (columns : RequiredColumns) : Prop where
  target : s.expression.firstTable? = some t.name
  allowed : ∀ tables, allowed = some tables → t.name ∈ tables
  inCatalog : x.catalog.table? t.name = some t
  required : s.requiredColumns x.catalog t = .ok columns
  all : columns.all = true → x.whitelist.policy? t.name = some .all
  granted : ∃ policy, x.whitelist.policy? t.name = some policy ∧
    ∀ column ∈ columns.names, policy.grants column = true
  stages : (x.registry.check (s.stages.map StageCall.name) s.outputShape).isValid = true

theorem planned_of_plan {t : Table} {columns : RequiredColumns}
    (h : x.plan allowed s = .ok (t, columns)) : Planned x allowed s t columns := by
  unfold plan at h
  obtain ⟨name, hname, h⟩ := except_bind_eq_ok.mp h
  obtain ⟨_, -, h⟩ := except_bind_eq_ok.mp h
  obtain ⟨_, hallowed, h⟩ := except_bind_eq_ok.mp h
  obtain ⟨u, htable, h⟩ := except_bind_eq_ok.mp h
  obtain ⟨required, hrequired, h⟩ := except_bind_eq_ok.mp h
  obtain ⟨hall, h⟩ := except_when_eq_ok.mp h
  obtain ⟨_, hcolumns, h⟩ := except_bind_eq_ok.mp h
  -- checking the stages comes last and adds nothing to the plan
  have hresult : u = t ∧ required = columns ∧
      (x.registry.check (s.stages.map StageCall.name) s.outputShape).isValid = true := by
    split at h
    · obtain ⟨_, hcheck, h⟩ := except_bind_eq_ok.mp h
      cases h
      exact ⟨rfl, rfl, Registry.PipelineCheck.isValid_of_result hcheck⟩
    · rename_i hnone
      cases h
      have hstages : s.stages = [] := by simpa using hnone
      exact ⟨rfl, rfl, by rw [hstages]; rfl⟩
  obtain ⟨rfl, rfl, hstages⟩ := hresult
  have htable := Catalog.table_eq_ok.mp htable
  obtain rfl := (Catalog.mem_tables_of_table? htable).2
  exact {
    target := Statement.targetTable_eq_ok.mp hname
    allowed := checkAllowed_eq_ok.mp hallowed
    inCatalog := htable
    required := hrequired
    all := fun h => Whitelist.checkAllColumns_eq_ok.mp (hall h)
    granted := Whitelist.checkColumns_eq_ok.mp hcolumns
    stages := hstages }

/-- The request for the rows of a statement. -/
def rowsCall (s : Statement) (t : Table) (columns : RequiredColumns) : FetchCall :=
  ⟨t.name, columns.names, StorageFilter.ofExpression? t s.expression⟩

/-- The request for the rows of a planned statement is permitted. -/
theorem Planned.permits {t : Table} {columns : RequiredColumns}
    (h : Planned x allowed s t columns) :
    Scope.Permits ⟨x.catalog, x.whitelist, allowed⟩ (rowsCall s t columns) where
  granted := h.granted
  allowed := h.allowed
  inCatalog := ⟨t, h.inCatalog, fun _ => Statement.mem_columnNames_of_mem_names h.required⟩
  covered := by
    intro f hf name hname
    -- what is pushed down was a condition before, and its column was planned as one
    obtain ⟨literal, hmem⟩ := StorageFilter.named_of_mem_columns hf name hname
    exact Statement.mem_names_of_mem_namedColumns h.required
      (Statement.mem_namedColumns_of_condition hmem (List.mem_singleton_self name))

end Executor

/-! ### Relations -/

section Relations

variable {scope : Scope} {rows : List Row}

/-- Looking a relation up makes a permitted request, if any. -/
theorem everyFetch_resolveRelation (hc : scope.catalog.Built) (direction : Direction)
    (source target : String) :
    EveryFetch scope.Permits (resolveRelation scope rows direction source target) := by
  unfold resolveRelation
  split
  · exact .done _
  · rename_i path hpath
    refine everyFetch_lift_bind fun _ hcolumns => everyFetch_lift_bind fun _ hallowed => ?_
    extract_lets probes
    split
    · exact .done _
    · refine .bind (.request ?_) fun remote => .done _
      exact {
        granted := Whitelist.checkColumns_eq_ok.mp hcolumns
        allowed := checkAllowed_eq_ok.mp hallowed
        inCatalog := hc.remote_of_path? hpath
        covered := by
          rintro _ ⟨⟩
          exact StorageFilter.forall_columns_disj fun row _ =>
            StorageFilter.columns_tupleFilter path row }

end Relations

/-! ### Stages -/

/-- A stage that makes permitted requests only, wherever it runs. -/
def Stage.Confined (stage : Stage) : Prop :=
  ∀ (scope : Scope) (args : Arguments) (input : Json),
    EveryFetch scope.Permits
      (stage.run ⟨scope.catalog, scope.whitelist, scope.allowed⟩ args input)

namespace Builtin

variable {scope : Scope}

/-- A request of a stage passes the checks of the scope. -/
theorem everyFetch_fetchRows {call : FetchCall} (hcovered : call.FilterCovered) :
    EveryFetch scope.Permits
      (fetchRows ⟨scope.catalog, scope.whitelist, scope.allowed⟩ call) := by
  unfold fetchRows
  refine everyFetch_lift_bind fun _ _ => everyFetch_lift_bind fun _ hallowed =>
    everyFetch_lift_bind fun t ht => ?_
  split
  · exact .failed _
  · rename_i hfind
    refine everyFetch_lift_bind fun _ hcolumns => .request ?_
    exact {
      granted := Whitelist.checkColumns_eq_ok.mp hcolumns
      allowed := checkAllowed_eq_ok.mp hallowed
      inCatalog := ⟨t, Catalog.table_eq_ok.mp ht, Table.mem_columnNames_of_find?_eq_none hfind⟩
      covered := hcovered }

theorem confined_load : load.Confined := by
  intro scope args input
  refine everyFetch_loadItems_of (fun table columns key keys _ hkey => ?_) input
  refine everyFetch_fetchRows ?_
  rintro _ ⟨⟩
  -- all keys are compared with one column, which is among those that are asked for
  refine StorageFilter.forall_columns_disj fun value _ column hcolumn => ?_
  rw [List.mem_singleton.mp hcolumn]
  exact hkey

/-- **The built-in stages are confined.** All but one make no request at all. -/
theorem confined_of_mem_all : ∀ stage ∈ all, stage.Confined := by
  intro stage hstage
  by_cases hload : stage = load
  · rw [hload]
    exact confined_load
  · exact fun scope args input => everyFetch_of_ne_load hstage hload _ args input

end Builtin

namespace Registry

/-- Every registered stage is confined. -/
def Confined (r : Registry) : Prop :=
  ∀ e ∈ r.stages, e.2.Confined

section Registered

variable {P : Stage → Prop}

/-- What holds of the stages of a registry holds of them after one more with the property. -/
theorem forall_stages_register {r r' : Registry} {stage : Stage} (hr : ∀ e ∈ r.stages, P e.2)
    (hstage : P stage) (h : r.register stage = .ok r') : ∀ e ∈ r'.stages, P e.2 := by
  unfold Registry.register at h
  simp only at h
  split at h
  · exact absurd h (by simp)
  · cases h
    intro e he
    -- entered under its full name, and maybe under its short one
    rcases Fields.mem_insert he with rfl | he
    · exact hstage
    · split at he
      · rcases Fields.mem_insert he with rfl | he
        · exact hstage
        · exact hr e he
      · exact hr e he

theorem forall_stages_foldl_register {stages : List Stage} {r : Registry}
    (hr : ∀ e ∈ r.stages, P e.2) (hstages : ∀ stage ∈ stages, P stage) :
    ∀ e ∈ (stages.foldl (fun r s => (r.register s).toOption.getD r) r).stages, P e.2 := by
  induction stages generalizing r with
  | nil => exact hr
  | cons stage rest ih =>
    have hnext : ∀ e ∈ ((r.register stage).toOption.getD r).stages, P e.2 := by
      cases hregister : r.register stage with
      | error e => exact hr
      | ok r' => exact forall_stages_register hr (hstages stage (List.mem_cons_self ..)) hregister
    exact ih hnext fun s hs => hstages s (List.mem_cons_of_mem _ hs)

theorem forall_stages_builtin (h : ∀ stage ∈ Builtin.all, P stage) :
    ∀ e ∈ Registry.builtin.stages, P e.2 :=
  forall_stages_foldl_register (fun e he => absurd he (by simp)) h

end Registered

theorem confined_builtin : Registry.builtin.Confined :=
  forall_stages_builtin Builtin.confined_of_mem_all

/-- A stage that a name means is a registered one. -/
theorem mem_stages_of_resolve? {r : Registry} {name : String} {stage : Stage}
    (h : r.resolve? name = some stage) : ∃ e ∈ r.stages, e.2 = stage := by
  unfold resolve? at h
  split at h
  · rename_i hget
    cases h
    obtain ⟨front, rest, hstages, -⟩ := List.lookup_eq_some_iff.mp hget
    exact ⟨(name, stage), by rw [hstages]; simp, rfl⟩
  · obtain ⟨e, he, rfl⟩ := Option.map_eq_some_iff.mp h
    exact ⟨e, List.mem_of_find?_eq_some he, rfl⟩

/-- A stage that a name means among the built-in ones is one of them. -/
theorem mem_all_of_resolve? {name : String} {stage : Stage}
    (h : builtin.resolve? name = some stage) : stage ∈ Builtin.all := by
  obtain ⟨e, he, rfl⟩ := mem_stages_of_resolve? h
  exact forall_stages_builtin (fun _ hstage => hstage) e he

theorem mem_stages_of_resolve {r : Registry} {name : String} {stage : Stage}
    (h : r.resolve name = .ok stage) : ∃ e ∈ r.stages, e.2 = stage := by
  unfold resolve at h
  split at h
  · rename_i hresolve
    cases h
    exact mem_stages_of_resolve? hresolve
  · exact absurd h (by simp)

/-- A pipeline of confined stages makes permitted requests only. -/
theorem Confined.everyFetch_runPipeline {r : Registry} (hr : r.Confined) (scope : Scope)
    (calls : List StageCall) (initial : Shape) (value : Json) :
    EveryFetch scope.Permits
      (r.runPipeline ⟨scope.catalog, scope.whitelist, scope.allowed⟩ calls initial value) := by
  refine everyFetch_runPipeline_of (fun call _ stage args hstage _ input => ?_) initial value
  obtain ⟨e, he, rfl⟩ := mem_stages_of_resolve hstage
  exact hr e he scope args input

end Registry

/-! ### Batches -/

namespace Executor

variable {x : Executor} {allowed : Option (List String)}

/-- All that a statement can ask for is permitted. -/
theorem everyPart_permits (hc : x.catalog.Built) (hr : x.registry.Confined) (s : Statement) :
    EveryPart x allowed (Scope.Permits ⟨x.catalog, x.whitelist, allowed⟩) s where
  rows _ _ hplan := (planned_of_plan hplan).permits
  relations direction source target _ _ := everyFetch_resolveRelation hc direction source target
  stages value := hr.everyFetch_runPipeline ⟨x.catalog, x.whitelist, allowed⟩ _ _ value

/-- **A batch makes permitted requests only**, whatever it has found before. -/
theorem everyFetch_runFrom (hc : x.catalog.Built) (hr : x.registry.Confined)
    (statements : List Statement) (out : Output) :
    EveryFetch (Scope.Permits ⟨x.catalog, x.whitelist, allowed⟩)
      (x.runFrom allowed statements out) :=
  everyFetch_runFrom_of (fun s _ => everyPart_permits hc hr s) out

/-- A statement that needs all columns – because it takes whole rows, or because a
condition on its table names no column – fetches nothing unless all are granted. -/
theorem everyFetch_of_needsAllColumns {s : Statement} {table : String}
    (htarget : s.expression.firstTable? = some table)
    (hall : s.projection = .all ∨ ∃ literal, .condition table none literal ∈ s.expression.atoms)
    (context : Context) :
    EveryFetch (fun _ => x.whitelist.policy? table = some .all)
      (x.runStatement allowed context s) := by
  cases hplan : x.plan allowed s with
  | error e =>
    have hfailed : x.runStatement allowed context s = .failed e := by
      simp only [runStatement, candidates, hplan, Fetching.lift_error, Fetching.failed_bind]
    rw [hfailed]
    exact .failed e
  | ok planned =>
    obtain ⟨t, columns⟩ := planned
    have h := planned_of_plan hplan
    obtain rfl : t.name = table := Option.some.inj (h.target.symm.trans htarget)
    obtain ⟨-, hcolumns⟩ := Statement.requiredColumns_eq_ok h.required
    have hneeds : s.needsAllColumns t = true := by
      rcases hall with hall | ⟨literal, hmem⟩
      · simp [Statement.needsAllColumns, hall]
      · have hon : .condition t.name none literal ∈ s.atomsOn t.name :=
          List.mem_filter.mpr ⟨hmem, by simp [Atom.table?]⟩
        exact Bool.or_eq_true_iff.mpr (Or.inr (List.any_eq_true.mpr ⟨_, hon, rfl⟩))
    have hgranted := h.all (by rw [hcolumns]; exact hneeds)
    exact .of_forall (fun _ => hgranted) _

/-! ### The access policy -/

/-- **Every fetch stays inside the access policy.** In a batch of any statements,
against a source that answers in any way, each request is permitted by the scope of
the run; and a statement that takes whole rows, or has a condition on its target table
without columns, makes a request only if that table is granted by the marker. -/
theorem everyFetch_run (catalog : Catalog) (hc : catalog.Built) (whitelist : Whitelist)
    (options : RunOptions) (allowed : Option (List String)) (statements : List Statement) :
    let x : Executor := ⟨catalog, whitelist, .builtin, options⟩
    EveryFetch (Scope.Permits ⟨catalog, whitelist, allowed⟩) (x.run statements allowed) ∧
      ∀ s ∈ statements, ∀ table, s.expression.firstTable? = some table →
        (s.projection = .all ∨ ∃ literal, .condition table none literal ∈ s.expression.atoms) →
        ∀ context, EveryFetch (fun _ => whitelist.policy? table = some .all)
          (x.runStatement allowed context s) := by
  intro x
  refine ⟨everyFetch_runFrom (x := x) hc Registry.confined_builtin statements {}, ?_⟩
  intro s _ table htarget hall context
  exact everyFetch_of_needsAllColumns (x := x) htarget hall context

/-- The authors of the posts about Lean, handed to a stage that takes them for user ids. -/
def blogStatement : Statement where
  expression := .and (.atom (.condition "posts" none (.text "lean" false .contains)))
    (.atom (.relation .forward "posts" "users"))
  projection := .column "author_id"
  stages := [{ name := "load", arguments := [{ value := .str "users" }] }]

/-- Posts are granted as a whole, users by their id only. -/
def blogWhitelist : Whitelist where
  grants := [("posts", .all), ("users", .only ["id"])]

/-- A user with a post, and a table that nothing refers to. -/
def blogStore (name secret : String) : Store where
  tables := [
    ("users", [[("id", .ofNat 1), ("name", .str name)]]),
    ("posts", [[("author_id", .ofNat 1), ("id", .ofNat 7), ("title", .str "On Lean")]]),
    ("secrets", [[("text", .str secret)]])]

/-- The author of the one post, as much of the row as is granted. -/
def blogOutput : Output where
  context := [("_prev", {
    values := [.obj [("id", .ofNat 1)]]
    column := some "author_id"
    ids := some [.ofNat 7]
    table := some "posts" })]
  results := [("result", .arr [.obj [("id", .ofNat 1)]])]

/-- The batch reads whole posts, the ids of their authors, and the users with these ids. -/
theorem everyFetch_run_blog :
    let x : Executor := ⟨.blog, blogWhitelist, .builtin, {}⟩
    let allowed := some ["posts", "users"]
    let permits := Scope.Permits ⟨.blog, blogWhitelist, allowed⟩
    let run := (x.run [blogStatement] allowed).runOn (blogStore "Ada" "a").fetch
    EveryFetch permits (x.run [blogStatement] allowed) ∧
      EveryFetch (fun _ => blogWhitelist.policy? "posts" = some .all)
        (x.runStatement allowed [] blogStatement) ∧
      run.1 = .ok blogOutput ∧
      run.2.map (fun call => (call.table, call.columns)) =
        [("posts", ["id", "title", "author_id", "created_at"]), ("users", ["id"]),
          ("users", ["id"])] ∧
      ∀ call ∈ run.2, permits call := by
  intro x allowed permits run
  obtain ⟨hpermits, hwhole⟩ := everyFetch_run .blog Catalog.built_blog blogWhitelist {} allowed
    [blogStatement]
  have hposts : .condition "posts" none (.text "lean" false .contains) ∈
      blogStatement.expression.atoms := List.mem_cons_self ..
  refine ⟨hpermits, ?_, by decide +kernel, by decide +kernel, hpermits.of_mem_runOn⟩
  exact hwhole blogStatement (List.mem_singleton_self _) "posts" rfl (Or.inr ⟨_, hposts⟩) []

end Executor

end TableQuery
