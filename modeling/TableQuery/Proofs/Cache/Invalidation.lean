import TableQuery.Engine.Basic
import TableQuery.Proofs.Batch.Sources
import TableQuery.Proofs.Json.Parts

/-!
# Forgetting what is known about a table

When a table changes, the results that depend on it are forgotten by clearing the keys
that its name occurs in, between quotes. This is complete: every table that a batch can
ask for is written in its key that way
(`TableQuery.Executor.everyFetch_run_written`), so no result that is left comes from a
batch that could have read the table, whatever was found on the way
(`TableQuery.Engine.clearKeys_complete`). Nor is a key cleared that does not have the
name in it.

What a batch can ask for is known from its statements
(`TableQuery.Executor.everyFetch_run_sources`), and a key is the text of a document in
which all of these tables stand as strings
(`TableQuery.Statement.within_of_mem_sources`). That a string is written as it is takes
a name without anything to escape, which is what a catalog allows.
-/

namespace TableQuery

open Fetching (EveryFetch)
open Json (Within)

/-! ### Tables in documents -/

theorem Json.eq_str_of_str? {value : Json} {text : String} (h : value.str? = some text) :
    value = .str text := by
  cases value with
  | str s => rw [Option.some.inj h]
  | null | bool | num | arr | obj => cases h

theorem Atom.within_toJson {a : Atom} {table : String} (h : table ∈ a.tables) :
    Within (.str table) a.toJson := by
  cases a with
  | condition name columns literal =>
    obtain rfl := List.mem_singleton.mp h
    exact .field .here (List.mem_cons_of_mem _ (List.mem_cons_self ..))
  | relation direction source target =>
    rcases List.mem_pair.mp h with rfl | rfl
    · exact .field .here
        (List.mem_cons_of_mem _ (List.mem_cons_of_mem _ (List.mem_cons_self ..)))
    · exact .field .here (List.mem_cons_of_mem _
        (List.mem_cons_of_mem _ (List.mem_cons_of_mem _ (List.mem_cons_self ..))))
  | never => cases h

/-- An atom stands in the document of its expression. -/
theorem Expression.within_toJson {e : Expression} {a : Atom} (ha : a ∈ e.atoms) {x : Json}
    (hx : Within x a.toJson) : Within x e.toJson := by
  induction e with
  | and l r ihl ihr | or l r ihl ihr =>
    have hoperands : ∃ y ∈ [l.toJson, r.toJson], Within x y := by
      rcases List.mem_append.mp ha with ha | ha
      · exact ⟨_, List.mem_cons_self .., ihl ha⟩
      · exact ⟨_, List.mem_cons_of_mem _ (List.mem_cons_self ..), ihr ha⟩
    obtain ⟨y, hy, hwithin⟩ := hoperands
    exact .field (.item hwithin hy) (List.mem_cons_self ..)
  | not e ih => exact .field (ih ha) (List.mem_cons_self ..)
  | atom b =>
    obtain rfl := List.mem_singleton.mp ha
    exact .field hx (List.mem_cons_self ..)

/-- An item of a list that is written in a record. -/
theorem mem_optionalList {α : Type} {name : String} {f : α → Json} {items : List α} {a : α}
    (h : a ∈ items) : (name, .arr (items.map f)) ∈ optionalList name f items := by
  rw [optionalList, if_neg (by simpa using List.ne_nil_of_mem h)]
  exact List.mem_singleton_self _

theorem StageCall.within_toJson {call : StageCall} {a : Argument} (ha : a ∈ call.arguments) :
    Within a.value call.toJson := by
  have hvalue : Within a.value a.toJson :=
    .field .here (List.mem_append_right _ (List.mem_singleton_self _))
  exact .field (.item hvalue (List.mem_map_of_mem ha))
    (List.mem_cons_of_mem _ (mem_optionalList ha))

namespace Statement

variable {s : Statement} {table : String}

theorem within_of_mem_tables (h : table ∈ s.tables) : Within (.str table) s.toJson := by
  obtain ⟨a, ha, htable⟩ := List.mem_flatMap.mp h
  have hfield : ∃ name fields, s.toJson = .obj fields ∧ (name, s.expression.toJson) ∈ fields :=
    ⟨"expr", _, rfl, by simp⟩
  obtain ⟨name, fields, hdocument, hmem⟩ := hfield
  rw [hdocument]
  exact .field (Expression.within_toJson ha (Atom.within_toJson htable)) hmem

theorem within_of_mem_stages {call : StageCall} (hcall : call ∈ s.stages)
    (h : table ∈ call.tables) : Within (.str table) s.toJson := by
  obtain ⟨value, hvalue, hstr⟩ := List.mem_filterMap.mp h
  obtain ⟨a, ha, rfl⟩ := StageCall.exists_argument_of_mem hvalue
  rw [← Json.eq_str_of_str? hstr]
  exact .field (.item (StageCall.within_toJson ha) (List.mem_map_of_mem hcall))
    (List.mem_append_right _ (mem_optionalList hcall))

/-- **A source of a statement stands in its document.** -/
theorem within_of_mem_sources (h : table ∈ s.sources) : Within (.str table) s.toJson := by
  rcases List.mem_append.mp h with h | h
  · exact within_of_mem_tables h
  · obtain ⟨call, hcall, htable⟩ := List.mem_flatMap.mp h
    exact within_of_mem_stages hcall htable

end Statement

/-! ### Tables in keys -/

/-- A table as a key has it: its name between quotes. -/
def quoted (table : String) : String :=
  "\"" ++ table ++ "\""

/-- The table is written in a key. -/
def WrittenIn (table key : String) : Prop :=
  (quoted table).toList <:+: key.toList

theorem writtenIn_batchKey {statements : List Statement} {s : Statement} (hs : s ∈ statements)
    {table : String} (htable : table ∈ s.sources) (hname : IsName table)
    (allowed : Option (List String)) : WrittenIn table (batchKey statements allowed) := by
  have hwithin : Within (.str table) (batchDocument statements allowed) :=
    .field (.item (Statement.within_of_mem_sources htable) (List.mem_map_of_mem hs))
      (List.mem_cons_self ..)
  have hrender := hwithin.render
  rw [Json.render_str_of_isName hname] at hrender
  simpa [WrittenIn, quoted, batchKey, Json.serialize] using hrender

/-- **Every table that a batch reads is written in its key.** -/
theorem Executor.everyFetch_run_written {x : Executor} (hc : x.catalog.Built)
    (hr : x.registry = .builtin) {statements : List Statement} (hloads : LoadsByString statements)
    (allowed : Option (List String)) :
    EveryFetch (fun call => WrittenIn call.table (batchKey statements allowed))
      (x.run statements allowed) := by
  have hconfined : x.registry.Confined := hr ▸ Registry.confined_builtin
  have hpermits : EveryFetch (Scope.Permits ⟨x.catalog, x.whitelist, allowed⟩)
      (x.run statements allowed) := everyFetch_runFrom hc hconfined statements {}
  refine ((everyFetch_run_sources hr hloads allowed).and hpermits).mono ?_
  rintro call ⟨⟨s, hs, hsource⟩, hpermit⟩
  -- a table that is asked for is one of the catalog, which has a proper name
  obtain ⟨t, ht, -⟩ := hpermit.inCatalog
  have hname : IsName call.table := hc.isName (by rw [Catalog.hasTable, ht]; rfl)
  exact writtenIn_batchKey hs hsource hname allowed

/-! ### Clearing -/

namespace Cache

variable {σ : Type} {c : Cache σ}

/-- A text behind the mark clears the keys that it occurs in. -/
theorem mem_clearKeys {text : String} {entry : String × CacheEntry} :
    entry ∈ (c.clearKeys ("~" ++ text)).2.entries ↔
      entry ∈ c.entries ∧ ¬text.toList <:+: entry.1.toList := by
  have hpattern : ("~" ++ text).toList = occurrenceMark :: text.toList := by
    rw [String.toList_append]
    rfl
  have hmatches : keyMatches ("~" ++ text) entry.1 = Text.hasInfix text.toList entry.1.toList := by
    simp [keyMatches, hpattern]
  rw [clearKeys, List.mem_filter, hmatches]
  simp [← Text.hasInfix_iff]

end Cache

namespace Engine

/-- **Forgetting a table is complete, and no more is forgotten.** -/
theorem clearKeys_complete (catalog : Catalog) (hc : catalog.Built) (whitelist : Whitelist)
    (config : EngineConfig) (source : Connection) (cache : Cache (Fetching Output)) :
    let e : Engine := ⟨catalog, whitelist, .builtin, config, source, some cache⟩
    (∀ statements allowed, LoadsByString statements →
      EveryFetch (fun call => WrittenIn call.table (batchKey statements allowed))
        (e.executor.run statements allowed)) ∧
    ∀ table, ∃ left, (e.clearKeys ("~" ++ quoted table)).2.cache = some left ∧
      (∀ statements allowed, LoadsByString statements →
        batchKey statements allowed ∈ left.entries.map Prod.fst →
          EveryFetch (fun call => call.table ≠ table) (e.executor.run statements allowed)) ∧
      ∀ entry ∈ cache.entries, ¬WrittenIn table entry.1 → entry ∈ left.entries := by
  intro e
  have hwritten : ∀ statements allowed, LoadsByString statements →
      EveryFetch (fun call => WrittenIn call.table (batchKey statements allowed))
        (e.executor.run statements allowed) := fun statements allowed hloads =>
    Executor.everyFetch_run_written hc rfl hloads allowed
  refine ⟨hwritten, fun table => ⟨_, rfl, ?_, fun entry hentry hnot => ?_⟩⟩
  · intro statements allowed hloads hstored
    obtain ⟨entry, hentry, hkey⟩ := List.mem_map.mp hstored
    obtain ⟨-, hnot⟩ := Cache.mem_clearKeys.mp hentry
    refine (hwritten statements allowed hloads).mono fun call hcall => ?_
    rintro rfl
    rw [← hkey] at hcall
    exact hnot hcall
  · exact Cache.mem_clearKeys.mpr ⟨hentry, hnot⟩

/-- Users with a name. -/
def namedUsers : Statement where
  expression := .atom (.condition "users" (some ["name"]) .notEmpty)

/-- Users are granted with their names. -/
def namedWhitelist : Whitelist where
  grants := [("posts", .all), ("users", .only ["id", "name"])]

/-- When posts change, the users that were found by way of a post are forgotten. A result about
users only is kept, and rightly so. -/
theorem clearKeys_complete_blog :
    let posts := batchKey [Executor.blogStatement] none
    let users := batchKey [namedUsers] none
    let x : Executor := ⟨.blog, namedWhitelist, .builtin, {}⟩
    let ofPosts := x.run [Executor.blogStatement] none
    let ofUsers := x.run [namedUsers] none
    let cache : Cache (Fetching Output) := {
      entries := [(posts, ⟨0, 0⟩), (users, ⟨7, 1⟩)]
      computations := [ofPosts, ofUsers]
      clock := 7
      misses := 2 }
    let store := Executor.blogStore "Ada" "a"
    let e : Engine := ⟨.blog, namedWhitelist, .builtin, {}, { store := store }, some cache⟩
    let readPosts := ofPosts.runOn store.fetch
    let readUsers := ofUsers.runOn store.fetch
    LoadsByString [Executor.blogStatement] ∧ LoadsByString [namedUsers] ∧
      EveryFetch (fun call => WrittenIn call.table posts) ofPosts ∧
      readPosts.1.map Output.results =
        .ok [("result", .arr [.obj [("id", .ofNat 1), ("name", .str "Ada")]])] ∧
      readPosts.2.map FetchCall.table = ["posts", "users", "users"] ∧
      ∃ left, (e.clearKeys ("~" ++ quoted "posts")).2.cache = some left ∧
        posts ∉ left.entries.map Prod.fst ∧ (users, ⟨7, 1⟩) ∈ left.entries ∧
        EveryFetch (fun call => call.table ≠ "posts") ofUsers ∧
        readUsers.1.map Output.results = .ok [("result", .arr [.ofNat 1])] ∧
        readUsers.2.map FetchCall.table = ["users"] := by
  intro posts users x ofPosts ofUsers cache store e readPosts readUsers
  have hposts : LoadsByString [Executor.blogStatement] := by
    intro s hs call hcall _ value hvalue
    obtain rfl := List.mem_singleton.mp hs
    obtain rfl := List.mem_singleton.mp hcall
    exact ⟨"users", List.mem_singleton.mp hvalue⟩
  have husers : LoadsByString [namedUsers] := by
    intro s hs call hcall
    obtain rfl := List.mem_singleton.mp hs
    cases hcall
  have hnot : ¬WrittenIn "posts" (batchKey [namedUsers] none) := by
    rw [WrittenIn, ← Text.hasInfix_iff, batchKey, Json.serialize, String.toList_ofList]
    decide +kernel
  have hasked : readPosts.2.map FetchCall.table = ["posts", "users", "users"] := by
    decide +kernel
  obtain ⟨hwritten, hclear⟩ := clearKeys_complete .blog Catalog.built_blog namedWhitelist {}
    { store := store } cache
  obtain ⟨left, hleft, hunread, hkeeps⟩ := hclear "posts"
  have hgone : posts ∉ left.entries.map Prod.fst := by
    intro hstored
    -- what is left does not ask for posts, but this run does
    have hnone : EveryFetch (fun call => call.table ≠ "posts") ofPosts :=
      hunread [Executor.blogStatement] none hposts hstored
    have hmem : "posts" ∈ readPosts.2.map FetchCall.table := by
      rw [hasked]
      exact List.mem_cons_self ..
    obtain ⟨call, hcall, htable⟩ := List.mem_map.mp hmem
    exact hnone.of_mem_runOn call hcall htable
  have hkept : (users, ⟨7, 1⟩) ∈ left.entries :=
    hkeeps _ (List.mem_cons_of_mem _ (List.mem_singleton_self _)) hnot
  have hstored : users ∈ left.entries.map Prod.fst := List.mem_map.mpr ⟨_, hkept, rfl⟩
  exact ⟨hposts, husers, hwritten _ _ hposts, by decide +kernel, hasked, left, hleft, hgone, hkept,
    hunread _ _ husers hstored, by decide +kernel, by decide +kernel⟩

end Engine

end TableQuery
