import TableQuery.Proofs.Access.Confinement

/-!
# Nothing leaks that is not granted

Two stores that differ only in what a scope does not grant cannot be told apart by
any batch run under it. They may differ in whole tables that are not granted or not
allowed, in columns of granted tables that are not granted, and in cells that the
catalog knows nothing about.

Nothing about the evaluation of statements is needed for this. Every request of a
batch is permitted (`TableQuery.Executor.everyFetch_runFrom`), a permitted request
has one answer in both stores (`TableQuery.Store.fetch_congr_of_permits`), and a
computation sees a store through its answers only
(`TableQuery.Fetching.EveryFetch.runOn_congr`).
-/

namespace TableQuery

namespace Scope

/-- The scope grants the table. -/
def GrantsTable (scope : Scope) (table : String) : Prop :=
  (scope.whitelist.policy? table).isSome = true ∧
    ∀ tables, scope.allowed = some tables → table ∈ tables

/-- The scope grants the column, which the catalog has to know. -/
def GrantsColumn (scope : Scope) (table column : String) : Prop :=
  (∃ t, scope.catalog.table? table = some t ∧ column ∈ t.columnNames) ∧
    ∃ policy, scope.whitelist.policy? table = some policy ∧ policy.grants column = true

/-- **Two stores look alike within a scope**: of each granted table both hold equally
many rows or neither holds any table, and row by row the granted cells are the same. -/
def LookAlike (scope : Scope) (s₁ s₂ : Store) : Prop :=
  ∀ table, scope.GrantsTable table →
    Option.Rel (List.Forall₂ (AgreeOn (scope.GrantsColumn table)))
      (s₁.rows? table) (s₂.rows? table)

theorem Permits.grantsTable {scope : Scope} {call : FetchCall} (h : scope.Permits call) :
    scope.GrantsTable call.table := by
  obtain ⟨policy, hpolicy, -⟩ := h.granted
  exact ⟨by rw [hpolicy]; rfl, h.allowed⟩

theorem Permits.grantsColumn {scope : Scope} {call : FetchCall} (h : scope.Permits call) :
    ∀ column ∈ call.columns, scope.GrantsColumn call.table column := by
  intro column hcolumn
  obtain ⟨policy, hpolicy, hgrants⟩ := h.granted
  obtain ⟨t, ht, hcolumns⟩ := h.inCatalog
  exact ⟨⟨t, ht, hcolumns column hcolumn⟩, policy, hpolicy, hgrants column hcolumn⟩

end Scope

/-- A permitted request has one answer in stores that look alike. -/
theorem Store.fetch_congr_of_permits {scope : Scope} {s₁ s₂ : Store}
    (halike : scope.LookAlike s₁ s₂) {call : FetchCall} (hcall : scope.Permits call) :
    s₁.fetch call = s₂.fetch call := by
  have hrel := halike call.table hcall.grantsTable
  rw [fetch, fetch]
  generalize s₁.rows? call.table = held₁ at hrel ⊢
  generalize s₂.rows? call.table = held₂ at hrel ⊢
  cases hrel with
  | some hrows =>
    refine select_congr hcall.covered (hrows.imp fun r₁ r₂ hrow => ?_)
    exact hrow.mono hcall.grantsColumn
  | none => rfl

namespace Executor

/-- **Noninterference of ungranted data.** On two stores that look alike within the
scope of a run, a batch has the same outcome – the same results with the same
variables, or the same error – and makes the same requests. -/
theorem runOn_run_of_lookAlike (catalog : Catalog) (hc : catalog.Built) (whitelist : Whitelist)
    (options : RunOptions) (allowed : Option (List String)) (statements : List Statement)
    (s₁ s₂ : Store) (halike : Scope.LookAlike ⟨catalog, whitelist, allowed⟩ s₁ s₂) :
    let x : Executor := ⟨catalog, whitelist, .builtin, options⟩
    (x.run statements allowed).runOn s₁.fetch = (x.run statements allowed).runOn s₂.fetch := by
  intro x
  have hevery : Fetching.EveryFetch (Scope.Permits ⟨catalog, whitelist, allowed⟩)
      (x.run statements allowed) :=
    everyFetch_runFrom (x := x) hc Registry.confined_builtin statements {}
  exact hevery.runOn_congr fun call hcall => Store.fetch_congr_of_permits halike hcall

/-- Names of users are not granted, so a change of one goes unnoticed, also where users are
loaded. -/
theorem runOn_run_blog :
    let x : Executor := ⟨.blog, blogWhitelist, .builtin, {}⟩
    let ada := blogStore "Ada" "a"
    let eve := blogStore "Eve" "b"
    let run := x.run [blogStatement] none
    Scope.LookAlike ⟨.blog, blogWhitelist, none⟩ ada eve ∧
      ada.rows? "users" ≠ eve.rows? "users" ∧
      run.runOn ada.fetch = run.runOn eve.fetch ∧
      (run.runOn ada.fetch).1 = .ok blogOutput ∧
      (run.runOn ada.fetch).2.map FetchCall.table = ["posts", "users", "users"] := by
  intro x ada eve run
  have halike : Scope.LookAlike ⟨.blog, blogWhitelist, none⟩ ada eve := by
    rintro table ⟨hgranted, -⟩
    by_cases husers : table = "users"
    · subst husers
      refine .some (.cons (fun column hcolumn => ?_) .nil)
      obtain ⟨-, policy, hpolicy, hgrants⟩ := hcolumn
      have hids : blogWhitelist.policy? "users" = some (.only ["id"]) := rfl
      obtain rfl : .only ["id"] = policy := Option.some.inj (hids.symm.trans hpolicy)
      obtain rfl : column = "id" := by simpa [ColumnPolicy.grants] using hgrants
      rfl
    by_cases hposts : table = "posts"
    · subst hposts
      exact .some (.cons (fun _ _ => rfl) .nil)
    · have hnone : blogWhitelist.policy? table = none := by
        have h₁ : (table == "posts") = false := by simpa using hposts
        have h₂ : (table == "users") = false := by simpa using husers
        simp [blogWhitelist, Whitelist.policy?, List.lookup_cons, h₁, h₂]
      rw [hnone] at hgranted
      cases hgranted
  have hsame : run.runOn ada.fetch = run.runOn eve.fetch :=
    runOn_run_of_lookAlike .blog Catalog.built_blog blogWhitelist {} none [blogStatement] ada eve
      halike
  exact ⟨halike, by decide +kernel, hsame, by decide +kernel, by decide +kernel⟩

end Executor

end TableQuery
