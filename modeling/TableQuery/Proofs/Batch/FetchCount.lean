import TableQuery.Proofs.Fetching.Transcripts
import TableQuery.Proofs.Relations.Existence

/-!
# How often a statement asks

A statement asks once for its rows, and once for each of its relations, whatever the
number of rows, of tuples among them, or of elements that a join goes over. Which
relations are asked about can be told from the rows: those that are declared and for
which some row has all its key cells (`TableQuery.Catalog.asksAbout`). A relation that is
named twice is asked about once, one that starts at another table not at all.

The requests themselves are known (`TableQuery.Executor.requests_runStatement`): the one
for the rows, and behind it the lookups, in the order in which the relations are named.
Counting them is all that is left to do (`TableQuery.Executor.transcript_runStatement`).
-/

namespace TableQuery

open Fetching (EveryFetch)

/-! ### Relations of a statement -/

/-- The relation of an atom, if it starts at the table. -/
def Atom.relationOn? (table : String) : Atom → Option (Direction × String × String)
  | relation direction source target =>
    if source = table then some (direction, source, target) else none
  | _ => none

/-- The relations that a statement names and that start at the table, each once. -/
def Statement.relationsOn (s : Statement) (table : String) :
    List (Direction × String × String) :=
  (s.expression.atoms.filterMap (Atom.relationOn? table)).eraseDups

namespace Catalog

variable {c : Catalog} {rows : List Row} {key : Direction × String × String}

/-- The relation is declared, and some of the rows has all its local key cells: they are
there and are not null. -/
def asksAbout (c : Catalog) (rows : List Row) (key : Direction × String × String) : Bool :=
  (c.path? key.1 key.2.1 key.2.2).any fun path =>
    rows.any fun row => path.localKeys.all fun name => (row.get? name).any fun v => !v.isNull

/-- The request that looks a relation up for the rows, where there is something to look
up. -/
def question? (c : Catalog) (rows : List Row) (key : Direction × String × String) :
    Option FetchCall :=
  (c.path? key.1 key.2.1 key.2.2).bind fun path =>
    if (path.probes rows).isEmpty then none else some (path.lookup (path.probes rows))

end Catalog

/-- A row has a tuple key where it has all the cells. -/
theorem isSome_tupleKey? (row : Row) (names : List String) :
    (tupleKey? row names).isSome =
      names.all fun name => (row.get? name).any fun v => !v.isNull := by
  rw [tupleKey?, Option.isSome_map]
  induction names with
  | nil => rfl
  | cons name names ih =>
    rw [List.all_cons, ← ih, ← Option.isSome_filter, cellKeys?]
    cases (row.get? name).filter fun v => !v.isNull with
    | none => rfl
    | some cell => cases cellKeys? row names <;> rfl

theorem RelationPath.isEmpty_probes (path : RelationPath) (rows : List Row) :
    (path.probes rows).isEmpty =
      !rows.any fun row => (tupleKey? row path.localKeys).isSome := by
  have hfirst : ∀ xs : List Row,
      (Json.firstBy (fun row => tupleKey? row path.localKeys) [] xs).isEmpty = xs.isEmpty := by
    rintro (_ | ⟨row, rest⟩) <;> rfl
  rw [probes, hfirst, Bool.eq_iff_iff, List.isEmpty_iff, List.filter_eq_nil_iff, Bool.not_eq_true',
    List.any_eq_false]

/-- There is a request exactly for what is asked about. -/
theorem Catalog.isSome_question? (c : Catalog) (rows : List Row)
    (key : Direction × String × String) : (c.question? rows key).isSome = c.asksAbout rows key := by
  rw [question?, asksAbout]
  cases c.path? key.1 key.2.1 key.2.2 with
  | none => rfl
  | some path =>
    rw [Option.bind_some, Option.any_some, path.isEmpty_probes rows]
    simp only [isSome_tupleKey?]
    cases rows.any _ <;> rfl

/-! ### Looking relations up -/

section Lookups

variable {scope : Scope} {rows : List Row} {log : List (FetchCall × FetchAnswer)}

/-- **One relation, one request** at most, and none where there is nothing to look up. -/
theorem requests_resolveRelation {direction : Direction} {source target : String}
    {check : RelationCheck}
    (h : (resolveRelation scope rows direction source target).Transcript log (.ok check)) :
    log.map Prod.fst = (scope.catalog.question? rows (direction, source, target)).toList := by
  rw [resolveRelation] at h
  rw [Catalog.question?]
  cases hpath : scope.catalog.path? direction source target with
  | none =>
    rw [hpath] at h
    obtain ⟨rfl, -⟩ := Fetching.transcript_done_iff.mp h
    rfl
  | some path =>
    rw [hpath] at h
    obtain ⟨_, -, h⟩ := Fetching.transcript_lift_bind_iff.mp h
    obtain ⟨_, -, h⟩ := Fetching.transcript_lift_bind_iff.mp h
    extract_lets probes at h
    rw [Option.bind_some]
    by_cases hprobes : probes.isEmpty = true
    · rw [if_pos hprobes] at h
      obtain ⟨rfl, -⟩ := Fetching.transcript_done_iff.mp h
      rw [if_pos hprobes]
      rfl
    · rw [if_neg hprobes] at h
      obtain ⟨remote, front, rest, hrequest, hdone, rfl⟩ := Fetching.transcript_bind_iff.mp h
      obtain rfl := Fetching.transcript_request_iff.mp hrequest
      obtain ⟨rfl, -⟩ := Fetching.transcript_done_iff.mp hdone
      rw [if_neg hprobes]
      rfl

/-- The relations among the given ones that have not been looked up, each once. -/
def RelationChecks.pending (checks : RelationChecks) (keys : List (Direction × String × String)) :
    List (Direction × String × String) :=
  (keys.filter fun key => (checks.lookup key).isNone).eraseDups

namespace RelationChecks

variable {checks : RelationChecks} {key : Direction × String × String}
  {keys : List (Direction × String × String)}

theorem pending_nil_left : pending [] keys = keys.eraseDups := by
  rw [pending]
  exact congrArg List.eraseDups (List.filter_eq_self.mpr fun _ _ => rfl)

theorem pending_cons_of_isSome (h : (checks.lookup key).isNone = false) :
    checks.pending (key :: keys) = checks.pending keys := by
  rw [pending, pending, List.filter_cons_of_neg (by simp [h])]

/-- The first relation that is pending is looked up, and what is pending after that are
the others. -/
theorem pending_cons_of_isNone (h : (checks.lookup key).isNone = true) (check : RelationCheck) :
    checks.pending (key :: keys) = key :: pending (checks ++ [(key, check)]) keys := by
  have hlookup : ∀ other, (List.lookup other (checks ++ [(key, check)])).isNone =
      (!(other == key) && (checks.lookup other).isNone) := by
    intro other
    rw [List.lookup_append, List.lookup_cons, Option.isNone_or, Bool.and_comm]
    cases other == key <;> rfl
  simp only [pending, hlookup]
  rw [List.filter_cons, if_pos h, List.eraseDups_cons, List.filter_filter]

end RelationChecks

/-- **The relations that are pending are asked about**, each once. -/
theorem requests_resolveRelations {table : String} {atoms : List Atom}
    {checks resolved : RelationChecks}
    (h : (resolveRelations scope table rows atoms checks).Transcript log (.ok resolved)) :
    log.map Prod.fst = (checks.pending (atoms.filterMap (Atom.relationOn? table))).filterMap
      (scope.catalog.question? rows) := by
  induction atoms generalizing checks log with
  | nil =>
    obtain ⟨rfl, -⟩ := Fetching.transcript_done_iff.mp h
    rfl
  | cons a rest ih =>
    cases a with
    | condition | never => exact ih h
    | relation direction source target =>
      rw [resolveRelations] at h
      by_cases hsource : source = table
      · subst hsource
        have hkey : Atom.relationOn? source (.relation direction source target) =
            some (direction, source, target) := if_pos rfl
        rw [beq_self_eq_true, Bool.true_and] at h
        rw [List.filterMap_cons_some hkey]
        by_cases hnone : (checks.lookup (direction, source, target)).isNone = true
        · rw [if_pos hnone] at h
          obtain ⟨check, front, later, hfront, hlater, rfl⟩ := Fetching.transcript_bind_iff.mp h
          rw [RelationChecks.pending_cons_of_isNone hnone check, List.map_append,
            requests_resolveRelation hfront, ih hlater, List.filterMap_cons]
          cases scope.catalog.question? rows (direction, source, target) <;> rfl
        · rw [if_neg hnone] at h
          rw [ih h, RelationChecks.pending_cons_of_isSome (by simpa using hnone)]
      · have hkey : Atom.relationOn? table (.relation direction source target) = none :=
          if_neg hsource
        rw [beq_eq_false_iff_ne.mpr hsource, Bool.false_and] at h
        rw [List.filterMap_cons_none hkey]
        exact ih h

end Lookups

/-! ### Statements -/

namespace Executor

variable {x : Executor} {allowed : Option (List String)} {context : Context} {s : Statement}
  {log : List (FetchCall × FetchAnswer)}

/-- Without stages nothing is asked behind the rows and the relations. -/
theorem everyFetch_finish_of_stages (hstages : s.stages = []) {P : FetchCall → Prop}
    (c : Candidates) : EveryFetch P (x.finish allowed context s c) := by
  refine everyFetch_finish_of (fun value => ?_) c context
  rw [runStages, Registry.runPipeline, hstages]
  exact .done value

/-- **The requests of a statement** without stages that succeeds: one for its rows, and
behind it the lookups of the relations that are asked about for the rows that came back. -/
theorem requests_runStatement (hstages : s.stages = []) {result : Json × Variable}
    (h : (x.runStatement allowed context s).Transcript log (.ok result)) :
    ∃ t columns rows later, x.plan allowed s = .ok (t, columns) ∧
      log = (rowsCall s t columns, .ok rows) :: later ∧
      later.map Prod.fst = (s.relationsOn t.name).filterMap (x.catalog.question? rows) := by
  cases hplan : x.plan allowed s with
  | error e =>
    rw [runStatement_of_plan_error hplan] at h
    cases h
  | ok planned =>
    obtain ⟨t, columns⟩ := planned
    rw [runStatement_of_plan hplan] at h
    cases h with
    | fetch _ answer h =>
      cases answer with
      | error e => cases h
      | ok rows =>
        obtain ⟨relations, front, rest, hfront, hrest, rfl⟩ := Fetching.transcript_bind_iff.mp h
        have hnothing : ∀ e ∈ rest, False :=
          (everyFetch_finish_of_stages (P := fun _ => False) hstages _).of_mem_transcript hrest
        obtain rfl := List.eq_nil_iff_forall_not_mem.mpr hnothing
        refine ⟨t, columns, rows, front ++ [], rfl, rfl, ?_⟩
        rw [List.append_nil, requests_resolveRelations hfront, RelationChecks.pending_nil_left,
          Statement.relationsOn]

/-- **A statement asks once for its rows and once for each relation**, be it a join or
not. Under any catalog, policy and options and whatever the source answers: in every
transcript of a statement without stages that succeeds, the first request is the one for
its rows, and as many follow as there are distinct relations that start at its table, are
declared and have all their key cells in some of the rows that came back. A statement
whose stages do not fit together asks for nothing. -/
theorem transcript_runStatement (x : Executor) (allowed : Option (List String))
    (context : Context) (s : Statement) :
    (s.stages = [] → ∀ log result,
      (x.runStatement allowed context s).Transcript log (.ok result) →
        ∃ t columns rows later, x.plan allowed s = .ok (t, columns) ∧
          log = (rowsCall s t columns, .ok rows) :: later ∧
          log.length = 1 + (s.relationsOn t.name).countP (x.catalog.asksAbout rows)) ∧
    ((x.registry.check (s.stages.map StageCall.name) s.outputShape).isValid = false →
      ∀ log result, (x.runStatement allowed context s).Transcript log result → log = []) := by
  constructor
  · intro hstages log result h
    obtain ⟨t, columns, rows, later, hplan, rfl, hlater⟩ := requests_runStatement hstages h
    refine ⟨t, columns, rows, later, hplan, rfl, ?_⟩
    have hcount := congrArg List.length hlater
    rw [List.length_map, List.length_filterMap_eq_countP] at hcount
    simp only [Catalog.isSome_question?] at hcount
    rw [List.length_cons, hcount, Nat.add_comm]
  · intro hinvalid log result h
    cases hplan : x.plan allowed s with
    | error e =>
      rw [runStatement_of_plan_error hplan] at h
      exact (Fetching.transcript_failed_iff.mp h).1
    | ok planned =>
      exact absurd (planned_of_plan hplan).stages (by simp [hinvalid])

/-- A join with three relations in it: one that is declared and named twice, one that is
not declared, and one that starts at another table. -/
def relatedPosts : Statement where
  name := some "seen"
  targetKey := some "related"
  expression := .and (.atom (.relation .forward "posts" "users"))
    (.or (.atom (.relation .forward "posts" "users"))
      (.or (.atom (.relation .backward "posts" "users"))
        (.atom (.relation .backward "users" "posts"))))

/-- For two posts and two elements two requests are made, since one of the relations is
asked about, and none where a stage is not registered. -/
theorem transcript_runStatement_relatedPosts :
    let x : Executor := ⟨.blog, { grants := [("posts", .all), ("users", .all)] }, .builtin, {}⟩
    let element (id : Nat) : Json := .obj [("id", .ofNat id)]
    let context : Context := [("seen", { values := [element 7, element 8] })]
    let s := relatedPosts
    let broken : Statement := { s with stages := [⟨"nothing", []⟩] }
    s.stages = [] ∧
      (x.registry.check (broken.stages.map StageCall.name) broken.outputShape).isValid = false ∧
      (∃ log result, (x.runStatement none context s).Transcript log (.ok result) ∧
        ∃ t columns rows later, x.plan none s = .ok (t, columns) ∧
          log = (rowsCall s t columns, .ok rows) :: later ∧ log.length = 2 ∧
          log.length = 1 + (s.relationsOn t.name).countP (x.catalog.asksAbout rows)) ∧
      ∀ log result, (x.runStatement none context broken).Transcript log result → log = [] := by
  intro x element context s broken
  let joined : List Json := [.obj [("id", .ofNat 7), ("related", .arr [.ofNat 7])],
    .obj [("id", .ofNat 8), ("related", .arr [.ofNat 7])]]
  have hinvalid : (x.registry.check (broken.stages.map StageCall.name)
    broken.outputShape).isValid = false := by decide +kernel
  have hrun : (x.runStatement none context s).outcome postsOfAda.fetch =
      .ok (.arr joined, { values := joined }) := by decide +kernel
  have hcalls : ((x.runStatement none context s).runOn postsOfAda.fetch).2.length = 2 := by
    decide +kernel
  have htranscript := Fetching.transcript_runOn (x.runStatement none context s) postsOfAda.fetch
  rw [show ((x.runStatement none context s).runOn postsOfAda.fetch).1 = _ from hrun]
    at htranscript
  obtain ⟨t, columns, rows, later, hplan, hlog, hcount⟩ :=
    (transcript_runStatement x none context s).1 rfl _ _ htranscript
  refine ⟨rfl, hinvalid, ⟨_, _, htranscript, t, columns, rows, later, hplan, hlog, ?_, hcount⟩, ?_⟩
  · rw [List.length_map, hcalls]
  · exact (transcript_runStatement x none context broken).2 hinvalid

end Executor

end TableQuery
