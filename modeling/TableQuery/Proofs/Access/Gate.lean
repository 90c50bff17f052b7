import TableQuery.Proofs.Access.Confinement

/-!
# Access control is a gate

A whitelist and a list of allowed tables can stop a batch, and that is all they can
do. Run without them – under a whitelist that grants every table as a whole, with all
tables allowed – a batch makes the same requests and comes to the same end, unless
the restricted run is denied on the way (`TableQuery.Executor.runOn_run_gated`).

The two runs are kept side by side by a relation between computations,
`TableQuery.Fetching.Gated`: the first goes on exactly like the second, request by
request, but may break off with a denial wherever it likes. Sequences keep the
relation, and so does a batch that skips failed statements, as a denial is never
skipped. It remains to be seen that no check lets anything but a denial through
(`TableQuery.Executor.deniedOr_plan`, `TableQuery.gated_resolveRelation`), and that
nothing else looks at the policy. The stage that loads rows does – it fetches the
granted columns, whichever these are – so it is left out.
-/

namespace TableQuery

/-! ### Denied, or the same -/

/-- The first result is a denial, or both are the same. -/
def DeniedOr {α : Type} (r r' : Except Error α) : Prop :=
  (∃ table columns reason, r = .error (.denied table columns reason)) ∨ r = r'

namespace DeniedOr

variable {α β : Type} {r r' : Except Error α}

theorem refl (r : Except Error α) : DeniedOr r r := Or.inr rfl

/-- A sequence is denied where one of its parts is. -/
theorem bind {f g : α → Except Error β} (h : DeniedOr r r')
    (hf : ∀ a, r' = .ok a → DeniedOr (f a) (g a)) : DeniedOr (r >>= f) (r' >>= g) := by
  rcases h with ⟨table, columns, reason, rfl⟩ | rfl
  · exact Or.inl ⟨table, columns, reason, rfl⟩
  · cases r with
    | error e => exact Or.inr rfl
    | ok a => exact hf a rfl

/-- A sequence that begins with a check in one case only. -/
theorem when {p : Prop} [Decidable p] {r r' : Except Error Unit} {f g : Unit → Except Error β}
    (h : DeniedOr r r') (hf : DeniedOr (f ()) (g ())) :
    DeniedOr (if p then r >>= f else f ()) (if p then r' >>= g else g ()) := by
  by_cases hp : p
  · rw [if_pos hp, if_pos hp]
    exact h.bind fun _ _ => hf
  · rw [if_neg hp, if_neg hp]
    exact hf

end DeniedOr

namespace Fetching

variable {α β : Type}

/-- **The first computation is the second behind a gate**: both make the same requests
and come to the same end, but at any point the first may break off with a denial. -/
inductive Gated : Fetching α → Fetching α → Prop where
  | done (a : α) : Gated (done a) (done a)
  | failed (e : Error) : Gated (failed e) (failed e)
  | denied (table : String) (columns : List String) (reason : Denial) (t : Fetching α) :
      Gated (failed (.denied table columns reason)) t
  | fetch (call : FetchCall) {next next' : FetchAnswer → Fetching α} :
      (∀ answer, Gated (next answer) (next' answer)) → Gated (fetch call next) (fetch call next')

namespace Gated

variable {t u : Fetching α}

theorem refl (t : Fetching α) : Gated t t := by
  induction t with
  | done a => exact .done a
  | failed e => exact .failed e
  | fetch call next ih => exact .fetch call ih

/-- A sequence behind a gate. -/
theorem bind {f g : α → Fetching β} (h : Gated t u) (hf : ∀ a, Gated (f a) (g a)) :
    Gated (t >>= f) (u >>= g) := by
  induction h with
  | done a => exact hf a
  | failed e => exact .failed e
  | denied table columns reason t => exact .denied table columns reason _
  | fetch call _ ih => exact .fetch call ih

/-- A computation that goes on after failures stays behind its gate if it passes every
denial on. -/
theorem attempt_bind {f g : Except Error α → Fetching β} (h : Gated t u)
    (hf : ∀ r, Gated (f r) (g r))
    (hdenied : ∀ table columns reason, f (.error (.denied table columns reason)) =
      Fetching.failed (.denied table columns reason)) :
    Gated (t.attempt >>= f) (u.attempt >>= g) := by
  induction h with
  | done a => exact hf _
  | failed e => exact hf _
  | denied table columns reason t =>
    change Gated (f (.error (.denied table columns reason))) _
    rw [hdenied]
    exact .denied table columns reason _
  | fetch call _ ih => exact .fetch call ih

/-- Against any source the two runs are the same, or the first is denied and has made
the first requests of the second. -/
theorem runOn (h : Gated t u) (source : FetchCall → FetchAnswer) :
    ((∃ table columns reason, (t.runOn source).1 = .error (.denied table columns reason)) ∧
        (t.runOn source).2 <+: (u.runOn source).2) ∨
      t.runOn source = u.runOn source := by
  induction h with
  | done a => exact Or.inr rfl
  | failed e => exact Or.inr rfl
  | denied table columns reason t =>
    exact Or.inl ⟨⟨table, columns, reason, rfl⟩, List.nil_prefix⟩
  | @fetch call next next' _ ih =>
    rcases ih (source call) with ⟨hdenied, hcalls⟩ | heq
    · exact Or.inl ⟨hdenied, List.prefix_cons_inj call |>.mpr hcalls⟩
    · rw [Fetching.runOn, Fetching.runOn, heq]
      exact Or.inr rfl

end Gated

/-- A check in front of a computation. -/
theorem gated_lift {r r' : Except Error α} (h : DeniedOr r r') :
    Gated (liftM r : Fetching α) (liftM r') := by
  rcases h with ⟨table, columns, reason, rfl⟩ | rfl
  · exact .denied table columns reason _
  · exact .refl _

end Fetching

open Fetching (Gated gated_lift)

/-- The tables that an atom names: its own, and the one at the far end of a relation. -/
def Atom.tables : Atom → List String
  | .condition table .. => [table]
  | .relation _ source target => [source, target]
  | .never => []

/-! ### The checks -/

section Checks

variable {w : Whitelist} {table : String}

theorem deniedOr_checkAllowed (table : String) (allowed : Option (List String)) :
    DeniedOr (checkAllowed table allowed) (checkAllowed table none) := by
  cases allowed with
  | none => exact .refl _
  | some tables =>
    simp only [checkAllowed]
    split
    · exact .refl _
    · exact Or.inl ⟨_, _, _, rfl⟩

/-- The whitelist grants all columns of the table. -/
def Whitelist.GrantsAll (full : Whitelist) (table : String) : Prop :=
  full.policy? table = some .all

variable {full : Whitelist} (hfull : full.GrantsAll table)

include hfull

theorem deniedOr_checkTable (w : Whitelist) :
    DeniedOr (w.checkTable table) (full.checkTable table) := by
  rw [Whitelist.checkTable, Whitelist.checkTable, hfull]
  split
  · exact .refl _
  · exact Or.inl ⟨_, _, _, rfl⟩

theorem deniedOr_checkAllColumns (w : Whitelist) :
    DeniedOr (w.checkAllColumns table) (full.checkAllColumns table) := by
  rw [Whitelist.checkAllColumns, Whitelist.checkAllColumns, hfull]
  split
  · exact .refl _
  · exact Or.inl ⟨_, _, _, rfl⟩
  · exact Or.inl ⟨_, _, _, rfl⟩

theorem deniedOr_checkColumns (w : Whitelist) (columns : List String) :
    DeniedOr (w.checkColumns table columns) (full.checkColumns table columns) := by
  have hgranted : full.checkColumns table columns = .ok () :=
    Whitelist.checkColumns_eq_ok.mpr ⟨.all, hfull, fun _ _ => rfl⟩
  rw [hgranted, Whitelist.checkColumns]
  split
  · exact Or.inl ⟨_, _, _, rfl⟩
  · split
    · exact .refl _
    · exact Or.inl ⟨_, _, _, rfl⟩

end Checks

/-! ### Statements -/

namespace Statement

/-- The tables that a statement names. -/
def tables (s : Statement) : List String :=
  s.expression.atoms.flatMap Atom.tables

theorem mem_tables_of_firstTable? {s : Statement} {table : String}
    (h : s.expression.firstTable? = some table) : table ∈ s.tables := by
  obtain ⟨a, ha, htable⟩ := List.exists_of_findSome?_eq_some h
  refine List.mem_flatMap.mpr ⟨a, ha, ?_⟩
  cases a with
  | condition | relation =>
    obtain rfl := Option.some.inj htable
    exact List.mem_cons_self ..
  | never => cases htable

end Statement

namespace Executor

variable {x : Executor} {full : Whitelist} {s : Statement}

/-- **Planning is denied, or as without a policy.** -/
theorem deniedOr_plan (hfull : ∀ table ∈ s.tables, full.GrantsAll table)
    (allowed : Option (List String)) :
    DeniedOr (x.plan allowed s) ({ x with whitelist := full }.plan none s) := by
  unfold plan
  refine .bind (.refl _) fun name hname => ?_
  have hgrants := hfull name
    (Statement.mem_tables_of_firstTable? (Statement.targetTable_eq_ok.mp hname))
  refine .bind (deniedOr_checkTable hgrants _) fun _ _ => ?_
  refine .bind (deniedOr_checkAllowed _ _) fun _ _ => ?_
  refine .bind (.refl _) fun t _ => .bind (.refl _) fun columns _ => ?_
  refine .when (deniedOr_checkAllColumns hgrants _) ?_
  exact .bind (deniedOr_checkColumns hgrants _ _) fun _ _ => .refl _

end Executor

/-! ### Relations -/

section Relations

variable {full : Whitelist}

theorem Catalog.remoteTable_of_path? {c : Catalog} {direction : Direction} {source target : String}
    {path : RelationPath} (h : c.path? direction source target = some path) :
    path.remoteTable = target := by
  cases direction with
  | forward | backward =>
    obtain ⟨r, hr, rfl⟩ := Option.map_eq_some_iff.mp h
    have hends := List.find?_some hr
    simp only [Bool.and_eq_true, beq_iff_eq] at hends
    first | exact hends.2 | exact hends.1

theorem gated_resolveRelation {catalog : Catalog} {target : String}
    (hfull : full.GrantsAll target) (w : Whitelist) (allowed : Option (List String))
    (rows : List Row) (direction : Direction) (source : String) :
    Gated (resolveRelation ⟨catalog, w, allowed⟩ rows direction source target)
      (resolveRelation ⟨catalog, full, none⟩ rows direction source target) := by
  unfold resolveRelation
  dsimp only
  cases hpath : catalog.path? direction source target with
  | none => exact .refl _
  | some path =>
    rw [← Catalog.remoteTable_of_path? hpath] at hfull
    refine .bind (gated_lift (deniedOr_checkColumns hfull _ _)) fun _ => ?_
    exact .bind (gated_lift (deniedOr_checkAllowed _ _)) fun _ => .refl _

theorem gated_resolveRelations {catalog : Catalog} {atoms : List Atom}
    (hfull : ∀ a ∈ atoms, ∀ table ∈ a.tables, full.GrantsAll table) (w : Whitelist)
    (allowed : Option (List String)) (table : String) (rows : List Row) (checks : RelationChecks) :
    Gated (resolveRelations ⟨catalog, w, allowed⟩ table rows atoms checks)
      (resolveRelations ⟨catalog, full, none⟩ table rows atoms checks) := by
  induction atoms generalizing checks with
  | nil => exact .refl _
  | cons a rest ih =>
    have hrest := ih fun b hb => hfull b (List.mem_cons_of_mem _ hb)
    cases a with
    | condition => exact hrest checks
    | never => exact hrest checks
    | relation direction source target =>
      have htarget : full.GrantsAll target :=
        hfull _ (List.mem_cons_self ..) target (by simp [Atom.tables])
      unfold resolveRelations
      split
      · exact .bind (gated_resolveRelation htarget ..) fun check => hrest _
      · exact hrest checks

end Relations

/-! ### Stages -/

/-- The stage makes nothing of the scope that it runs in. -/
def Stage.IgnoresScope (stage : Stage) : Prop :=
  ∀ scope scope' : StageScope, stage.run scope = stage.run scope'

/-- All built-in stages but the one that loads rows ignore their scope. -/
theorem Builtin.ignoresScope_of_mem_all :
    ∀ stage ∈ all, stage ≠ load → stage.IgnoresScope := by
  intro stage hstage hload scope scope'
  simp only [all, List.mem_cons, List.not_mem_nil, or_false] at hstage
  rcases hstage with rfl | rfl | rfl | rfl | rfl | rfl | rfl | rfl
  case inr.inr.inr.inr.inr.inr.inr => exact absurd rfl hload
  all_goals rfl

namespace Registry

variable {r : Registry}

theorem resolve_eq_ok {name : String} {stage : Stage} :
    r.resolve name = .ok stage ↔ r.resolve? name = some stage := by
  rw [resolve]
  cases r.resolve? name <;> simp

/-- Every stage that is called ignores its scope. -/
def CallsIgnoreScope (r : Registry) (calls : List StageCall) : Prop :=
  ∀ call ∈ calls, ∀ stage, r.resolve? call.name = some stage → stage.IgnoresScope

/-- Calls of built-in stages ignore the scope where none of them loads rows. -/
theorem callsIgnoreScope_builtin {calls : List StageCall}
    (h : ∀ call ∈ calls, builtin.resolve? call.name ≠ some Builtin.load) :
    builtin.CallsIgnoreScope calls := by
  intro call hcall stage hstage
  refine Builtin.ignoresScope_of_mem_all stage (mem_all_of_resolve? hstage) fun hload => ?_
  exact h call hcall (by rw [hstage, hload])

theorem runCalls_of_callsIgnoreScope {calls : List StageCall} (h : r.CallsIgnoreScope calls)
    (scope scope' : StageScope) (value : Json) :
    r.runCalls scope calls value = r.runCalls scope' calls value := by
  induction calls generalizing value with
  | nil => rfl
  | cons call rest ih =>
    have hrest := ih fun c hc => h c (List.mem_cons_of_mem _ hc)
    cases hstage : r.resolve call.name with
    | error e => simp only [runCalls, hstage, Fetching.lift_error, Fetching.failed_bind]
    | ok stage =>
      have hrun := h call (List.mem_cons_self ..) stage (resolve_eq_ok.mp hstage) scope scope'
      simp only [runCalls, hstage, Fetching.lift_ok, Fetching.done_bind, hrun, hrest]

end Registry

/-! ### Batches -/

namespace Executor

variable {x : Executor} {full : Whitelist} {s : Statement}

theorem runStages_of_callsIgnoreScope (h : x.registry.CallsIgnoreScope s.stages)
    (full : Whitelist) (allowed : Option (List String)) (value : Json) :
    x.runStages allowed s value = { x with whitelist := full }.runStages none s value := by
  simp only [runStages, Registry.runPipeline, Registry.runCalls_of_callsIgnoreScope h _
    (⟨x.catalog, full, none⟩ : StageScope)]

theorem joinElements_of_callsIgnoreScope (h : x.registry.CallsIgnoreScope s.stages)
    (full : Whitelist) (allowed : Option (List String)) (c : Candidates) (context : Context)
    (name key : String) (index : Nat) (elements : List Json) :
    x.joinElements allowed s c context name key index elements =
      { x with whitelist := full }.joinElements none s c context name key index elements := by
  induction elements generalizing index with
  | nil => rfl
  | cons element rest ih =>
    cases element with
    | obj fields =>
      simp only [joinElements, runStages_of_callsIgnoreScope h full, ih]
      rfl
    | null | bool | num | str | arr => rfl

theorem gated_candidates (hfull : ∀ table ∈ s.tables, full.GrantsAll table)
    (allowed : Option (List String)) :
    Gated (x.candidates allowed s) ({ x with whitelist := full }.candidates none s) := by
  refine .bind (gated_lift (deniedOr_plan hfull allowed)) fun (table, columns) => ?_
  refine .bind (.refl _) fun rows => .bind ?_ fun relations => .refl _
  exact gated_resolveRelations
    (fun a ha table htable => hfull table (List.mem_flatMap.mpr ⟨a, ha, htable⟩)) ..

/-- A statement is denied, or runs as without a policy. -/
theorem gated_runStatement (hfull : ∀ table ∈ s.tables, full.GrantsAll table)
    (hstages : x.registry.CallsIgnoreScope s.stages) (allowed : Option (List String))
    (context : Context) :
    Gated (x.runStatement allowed context s)
      ({ x with whitelist := full }.runStatement none context s) := by
  refine .bind (gated_candidates hfull allowed) fun c => ?_
  split
  · simp only [join, joinElements_of_callsIgnoreScope hstages full]
    exact .refl _
  · simp only [evaluate, runStages_of_callsIgnoreScope hstages full]
    exact .refl _

/-- **A batch is denied, or runs as without a policy.** -/
theorem gated_runFrom {statements : List Statement}
    (hfull : ∀ s ∈ statements, ∀ table ∈ s.tables, full.GrantsAll table)
    (hstages : ∀ s ∈ statements, x.registry.CallsIgnoreScope s.stages)
    (allowed : Option (List String)) (out : Output) :
    Gated (x.runFrom allowed statements out)
      ({ x with whitelist := full }.runFrom none statements out) := by
  induction statements generalizing out with
  | nil => exact .refl _
  | cons s rest ih =>
    have hrest := ih (fun s hs => hfull s (List.mem_cons_of_mem _ hs))
      fun s hs => hstages s (List.mem_cons_of_mem _ hs)
    have hs := gated_runStatement (hfull s (List.mem_cons_self ..))
      (hstages s (List.mem_cons_self ..)) allowed out.context
    refine hs.attempt_bind (fun outcome => ?_) fun table columns reason => ?_
    · cases outcome with
      | ok result => exact hrest _
      | error e =>
        dsimp only
        split
        · exact hrest _
        · exact .refl _
    · -- a denial is no error that a batch goes on after
      simp [Error.isSkippable]

/-- **Access control is a gate.** Let `full` grant every table that a batch names as a
whole. Under any whitelist and list of allowed tables a batch that loads no rows in its
stages is denied, having made the first requests of its run under `full` with all tables
allowed, or it does the same as that run: it makes the same requests and has the same
output, or the same error. -/
theorem runOn_run_gated (catalog : Catalog) (whitelist full : Whitelist) (options : RunOptions)
    (allowed : Option (List String)) (statements : List Statement)
    (hfull : ∀ s ∈ statements, ∀ table ∈ s.tables, full.GrantsAll table)
    (hload : ∀ s ∈ statements, ∀ call ∈ s.stages,
      Registry.builtin.resolve? call.name ≠ some Builtin.load)
    (source : FetchCall → FetchAnswer) :
    let guarded : Executor := ⟨catalog, whitelist, .builtin, options⟩
    let free : Executor := ⟨catalog, full, .builtin, options⟩
    ((∃ table columns reason,
        ((guarded.run statements allowed).runOn source).1 =
          .error (.denied table columns reason)) ∧
        ((guarded.run statements allowed).runOn source).2 <+:
          ((free.run statements none).runOn source).2) ∨
      (guarded.run statements allowed).runOn source =
        (free.run statements none).runOn source := by
  intro guarded free
  have hstages : ∀ s ∈ statements, guarded.registry.CallsIgnoreScope s.stages := fun s hs =>
    Registry.callsIgnoreScope_builtin (hload s hs)
  exact (gated_runFrom (x := guarded) hfull hstages allowed {}).runOn source

/-- The number of posts with a known author. -/
def blogCount : Statement where
  expression := .atom (.relation .forward "posts" "users")
  stages := [{ name := "count" }]

/-- One post has a known author. -/
def blogCounted : Output where
  context := [("_prev", { values := [.ofNat 1], column := some "id", table := some "posts" })]
  results := [("result", .ofNat 1)]

/-- Counting posts under a whitelist that grants their authors by id only is not denied, so it
counts as if users were granted as a whole. -/
theorem runOn_run_gated_blog :
    let full : Whitelist := ⟨[("posts", .all), ("users", .all)]⟩
    let guarded : Executor := ⟨.blog, blogWhitelist, .builtin, {}⟩
    let free : Executor := ⟨.blog, full, .builtin, {}⟩
    let store : Store := { tables := [
      ("users", [[("id", .ofNat 1)]]),
      ("posts", [[("author_id", .ofNat 1), ("id", .ofNat 7)], [("id", .ofNat 8)]])] }
    let run := (guarded.run [blogCount] (some ["posts", "users"])).runOn store.fetch
    (∀ s ∈ [blogCount], ∀ table ∈ s.tables, full.GrantsAll table) ∧
      (∀ s ∈ [blogCount], ∀ call ∈ s.stages,
        Registry.builtin.resolve? call.name ≠ some Builtin.load) ∧
      run = (free.run [blogCount] none).runOn store.fetch ∧
      run.1 = .ok blogCounted ∧
      run.2.map FetchCall.table = ["posts", "users"] := by
  intro full guarded free store run
  have hfull : ∀ s ∈ [blogCount], ∀ table ∈ s.tables, full.GrantsAll table := by
    intro s hs table htable
    obtain rfl := List.mem_singleton.mp hs
    have hnames : table = "posts" ∨ table = "users" := by
      simpa [Statement.tables, blogCount, Expression.atoms, Atom.tables] using htable
    rcases hnames with rfl | rfl <;> rfl
  have hload : ∀ s ∈ [blogCount], ∀ call ∈ s.stages,
      Registry.builtin.resolve? call.name ≠ some Builtin.load := by
    intro s hs call hcall hresolve
    obtain rfl := List.mem_singleton.mp hs
    obtain rfl := List.mem_singleton.mp hcall
    have hname := congrArg (Option.map fun stage => stage.signature.name) hresolve
    revert hname
    decide
  have hgated := runOn_run_gated .blog blogWhitelist full {} (some ["posts", "users"])
    [blogCount] hfull hload store.fetch
  have hok : run.1 = .ok blogCounted := by decide +kernel
  have hfree : run = (free.run [blogCount] none).runOn store.fetch :=
    hgated.resolve_left fun ⟨⟨_, _, _, hdenied⟩, _⟩ => nomatch hok.symm.trans hdenied
  exact ⟨hfull, hload, hfree, hok, by decide +kernel⟩

end Executor

end TableQuery
