import Mathlib.Control.Monad.Basic
import TableQuery.Proofs.Access.Confinement
import TableQuery.Proofs.Batch.Steps
import TableQuery.Proofs.Relations.Lookup
import TableQuery.Proofs.Schema.Built

/-!
# Relations in statements

What a relation in a statement means for the rows of the statement: it accepts those
that have a related row, and no others, as if the remote table were searched for each
row by itself (`TableQuery.Executor.relation_accepts_iff`). Neither the other rows of
the statement nor its variables have a say in this.

The catalog is one that was built, so the key columns on the two sides of a declared
relation pair up.
-/

namespace TableQuery

namespace Executor

/-- **A relation accepts the rows that have a related row.** Where the rows of a
statement have been fetched and its relations looked up, a relation of its table accepts
a fetched row if and only if the store has a remote row for it, provided that the
separator is in none of the strings in its key cells; and the lookup for any other rows
among which it stands would say the same of it. A relation that is not declared accepts
nothing. -/
theorem relation_accepts_iff (x : Executor) (hbuilt : x.catalog.Built)
    (allowed : Option (List String)) (s : Statement) (store : Store) (c : Candidates)
    (hc : (x.candidates allowed s).outcome store.fetch = .ok c) (table : String)
    (htable : s.expression.firstTable? = some table) (direction : Direction) (target : String)
    (hatom : .relation direction table target ∈ s.expression.atoms) (context : Context)
    (frame : Option LoopFrame) :
    ∃ test, compileAtom ⟨c.table, context, frame, c.relations, x.options.emptyMeansAll⟩
        (.relation direction table target) = .ok test ∧
      (x.catalog.path? direction table target = none → ∀ row, test row = false) ∧
      ∀ path, x.catalog.path? direction table target = some path →
        ∀ row ∈ c.rows, SeparatorFree row path.localKeys →
          (test row = true ↔ path.HasRelated store row) ∧
          ∀ rows check, row ∈ rows →
            (resolveRelation ⟨x.catalog, x.whitelist, allowed⟩ rows direction table
              target).outcome store.fetch = .ok check →
            check.accepts row = test row := by
  obtain ⟨hplan, -, hrelations⟩ := outcome_candidates_eq_ok.mp hc
  obtain rfl : c.table.name = table :=
    Option.some.inj ((planned_of_plan hplan).target.symm.trans htable)
  obtain ⟨hlooked, hall⟩ := lookedUp_of_resolveRelations (by rintro _ _ _ _ ⟨⟩) hrelations
  obtain ⟨check, hlookup⟩ := Option.isSome_iff_exists.mp (hall direction target hatom)
  have hcheck := hlooked _ _ _ _ hlookup
  have haccepts : ∀ row, (c.relations.lookup (direction, c.table.name, target)).any
      (fun check => check.accepts row) = check.accepts row := by
    intro row
    rw [hlookup, Option.any_some]
  refine ⟨_, rfl, fun hnone row => ?_, fun path hpath row hrow hfree => ?_⟩
  · rw [haccepts]
    rw [resolveRelation, hnone] at hcheck
    obtain rfl := Except.ok.inj hcheck
    rfl
  · have hpaired := hbuilt.paired_of_path? hpath
    have hiff := accepts_iff_hasRelated hpath hpaired hcheck hrow hfree
    rw [haccepts]
    refine ⟨hiff, fun rows other hrow' hother => ?_⟩
    exact Bool.eq_iff_iff.mpr
      ((accepts_iff_hasRelated hpath hpaired hother hrow' hfree).trans hiff.symm)

/-- A user, whose identifier is a number, and two posts: one names its author by a text. -/
def postsOfAda : Store where
  tables := [
    ("users", [[("id", .ofNat 1), ("name", .str "Ada")]]),
    ("posts", [
      [("author_id", .str "1"), ("id", .ofNat 7), ("title", .str "On Lean")],
      [("author_id", .ofNat 2), ("id", .ofNat 8), ("title", .str "On Sets")]])]

/-- The author of the one post is found, that of the other one is not. -/
theorem relation_accepts_iff_postsOfAda :
    let x : Executor :=
      ⟨.blog, { grants := [("posts", .all), ("users", .all)] }, .builtin, {}⟩
    let s : Statement := { expression := .atom (.relation .forward "posts" "users") }
    let path : RelationPath := ⟨["author_id"], "users", ["id"]⟩
    let found : Row := [("author_id", .str "1"), ("id", .ofNat 7)]
    let lost : Row := [("author_id", .ofNat 2), ("id", .ofNat 8)]
    ∃ c, (x.candidates none s).outcome postsOfAda.fetch = .ok c ∧ c.rows = [found, lost] ∧
      x.catalog.path? .forward "posts" "users" = some path ∧
      path.HasRelated postsOfAda found ∧ ¬path.HasRelated postsOfAda lost := by
  intro x s path found lost
  let c : Candidates := ⟨Catalog.blog.tables[1], ⟨["id", "author_id"], false⟩, [found, lost],
    [((.forward, "posts", "users"), .known ["author_id"] ["1"])]⟩
  have hc : (x.candidates none s).outcome postsOfAda.fetch = .ok c :=
    outcome_candidates_eq_ok.mpr ⟨by decide +kernel, by decide +kernel, by decide +kernel⟩
  obtain ⟨test, htest, -, haccepts⟩ := relation_accepts_iff x Catalog.built_blog none s
    postsOfAda c hc "posts" rfl .forward "users" (List.mem_singleton_self _) [] none
  obtain rfl := Except.ok.inj htest
  have hfree : ∀ row ∈ c.rows, SeparatorFree row path.localKeys := by
    intro row hrow name hname text htext
    obtain rfl := List.mem_singleton.mp hname
    rcases List.mem_cons.mp hrow with rfl | hrow
    · obtain rfl : "1" = text := Json.str.inj (Option.some.inj htext)
      decide
    · obtain rfl := List.mem_singleton.mp hrow
      cases htext
  refine ⟨c, hc, rfl, rfl, ?_, ?_⟩
  · have hmem : found ∈ c.rows := List.mem_cons_self ..
    exact (haccepts path rfl found hmem (hfree found hmem)).1.mp (by decide +kernel)
  · have hmem : lost ∈ c.rows := List.mem_cons_of_mem _ (List.mem_cons_self ..)
    intro hrelated
    have hholds := (haccepts path rfl lost hmem (hfree lost hmem)).1.mpr hrelated
    revert hholds
    decide +kernel

end Executor

end TableQuery
