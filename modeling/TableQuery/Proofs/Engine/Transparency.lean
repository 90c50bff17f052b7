import TableQuery.Engine.Basic
import TableQuery.Proofs.Access.AllowedTables
import TableQuery.Proofs.Cache.Entries
import TableQuery.Proofs.Cache.Keys

/-!
# The cache changes no answer

An engine over a store that neither changes nor fails answers every batch as it would without a
cache, whatever it has been asked before, however much time passes, and whichever results are
forgotten (`TableQuery.Engine.answers_eq_cacheless`).

What an entry of the cache stands for has, on the store, the result of every batch with its key
(`TableQuery.Cache.Faithful`). That can hold for all of them at once because they do the same: a
key tells the statements apart, and says which tables are allowed
(`TableQuery.eq_of_batchKey_eq`); and how these are listed does not matter
(`TableQuery.Executor.run_congr`).
-/

namespace TableQuery

/-! ### Stores that do not fail -/

namespace Fetching

variable {α : Type}

/-- The result over a store. -/
def resultOn (t : Fetching α) (store : Store) : Except Error α :=
  (t.runOn store.fetch).1

@[simp] theorem resultOn_ofExcept (r : Except Error α) (store : Store) :
    (ofExcept r).resultOn store = r := by
  cases r <;> rfl

/-- Over a connection without outages, a computation has the result of the store and leaves
everything but the count of requests as it is. -/
theorem settle_of_no_outages (t : Fetching α) {source : Connection} (h : source.outages = 0) :
    (t.settle source).1 = t.resultOn source.store ∧
      (t.settle source).2.store = source.store ∧ (t.settle source).2.outages = 0 := by
  induction t generalizing source with
  | done a => exact ⟨rfl, rfl, h⟩
  | failed e => exact ⟨rfl, rfl, h⟩
  | fetch call next ih =>
    have hfetch : source.fetch call = (source.store.fetch call, source.ask) := by
      simp only [Connection.fetch, Connection.answer, Connection.ask, h]
    rw [settle, hfetch]
    exact ih (source.store.fetch call) h

end Fetching

/-! ### What entries stand for -/

namespace Cache

variable {x : Executor} {store : Store} {c d : Cache (Fetching Output)} {key : String}
  {number : Nat}

/-- A computation that was started has the result of every batch of a key. -/
def StandsFor (x : Executor) (store : Store) (c : Cache (Fetching Output)) (key : String)
    (number : Nat) : Prop :=
  ∃ t, c.computation? number = some t ∧ ∀ statements allowed,
    batchKey statements allowed = key →
      t.resultOn store = (x.run statements allowed).resultOn store

/-- **Entries stand for the batches of their keys.** -/
def Faithful (x : Executor) (store : Store) (c : Cache (Fetching Output)) : Prop :=
  ∀ key e, (key, e) ∈ c.entries → c.StandsFor x store key e.number

theorem Faithful.of_subset (h : c.Faithful x store) (hentries : d.entries ⊆ c.entries)
    (hcomputations : d.computations = c.computations) : d.Faithful x store := by
  intro key e he
  obtain ⟨t, ht, hresult⟩ := h key e (hentries he)
  exact ⟨t, by rw [computation?, hcomputations]; exact ht, hresult⟩

theorem Faithful.leave (h : c.Faithful x store) (key : String) (number : Nat)
    (result : Except Error Output) : (c.leave key number result).Faithful x store := by
  cases result with
  | ok out => exact h
  | error failure => exact h.of_subset List.filter_sublist.subset rfl

/-- A computation may be replaced by its result. -/
theorem Faithful.update (h : c.Faithful x store) {t : Fetching Output}
    (ht : c.computation? number = some t) :
    (c.update number (.ofExcept (t.resultOn store))).Faithful x store := by
  intro key e he
  obtain ⟨u, hu, hresult⟩ := h key e he
  by_cases hnumber : number = e.number
  · subst hnumber
    obtain rfl : t = u := Option.some.inj (ht.symm.trans hu)
    refine ⟨.ofExcept (t.resultOn store), ?_, fun statements allowed hkey => ?_⟩
    · exact List.getElem?_set_self (List.getElem?_eq_some_iff.mp ht).1
    · rw [Fetching.resultOn_ofExcept]
      exact hresult statements allowed hkey
  · exact ⟨u, (List.getElem?_set_ne hnumber).trans hu, hresult⟩

variable (hr : ∀ e ∈ x.registry.stages, e.2.IgnoresListing)

include hr in
/-- Batches with one key have one result. -/
theorem resultOn_of_batchKey_eq {s₁ s₂ : List Statement} {a₁ a₂ : Option (List String)}
    (h : batchKey s₁ a₁ = batchKey s₂ a₂) :
    (x.run s₁ a₁).resultOn store = (x.run s₂ a₂).resultOn store := by
  obtain ⟨rfl, hallowed⟩ := eq_of_batchKey_eq h
  rw [Executor.run_congr hr hallowed]

include hr in
/-- A caller with a batch is given a computation that stands for it. -/
theorem Faithful.enter (h : c.Faithful x store) (statements : List Statement)
    (allowed : Option (List String)) :
    let entered := c.enter (batchKey statements allowed) (x.run statements allowed)
    entered.2.Faithful x store ∧
      entered.2.StandsFor x store (batchKey statements allowed) entered.1.number := by
  intro entered
  cases hfresh : c.fresh? (batchKey statements allowed) with
  | some e =>
    have hentered := enter_of_fresh hfresh (x.run statements allowed)
    rw [show entered = _ from hentered]
    exact ⟨h.of_subset (List.Subset.refl _) rfl, h _ e (of_fresh? hfresh).1⟩
  | none =>
    have hentered := enter_of_stale hfresh (x.run statements allowed)
    rw [show entered = _ from hentered]
    have hown : StandsFor x store
        { c with computations := c.computations ++ [x.run statements allowed] }
        (batchKey statements allowed) c.computations.length :=
      ⟨x.run statements allowed, List.getElem?_concat_length, fun s a hkey =>
        resultOn_of_batchKey_eq hr hkey.symm⟩
    refine ⟨fun key e he => ?_, hown⟩
    rcases List.mem_cons.mp he with heq | he
    · obtain ⟨rfl, rfl⟩ := Prod.mk.inj heq
      exact hown
    · obtain ⟨t, ht, hresult⟩ := h key e (List.mem_filter.mp he).1
      have hplace := (List.getElem?_eq_some_iff.mp ht).1
      exact ⟨t, (List.getElem?_append_left hplace).trans ht, hresult⟩

end Cache

/-! ### What callers see -/

/-- Something that is asked of an engine. -/
inductive EngineAction where
  | run (statements : List Statement) (allowed : Option (List String))
  | advance (milliseconds : Nat)
  | clearCache
  | clearKeys (pattern : String)

namespace Engine

variable {e : Engine} {x : Executor} {store : Store}

/-- Does what is asked. Only a batch has an answer. -/
def act (e : Engine) : EngineAction → Option (Except Error Output) × Engine
  | .run statements allowed =>
    let (answer, e) := e.run statements allowed
    (some answer, e)
  | .advance milliseconds => (none, e.advance milliseconds)
  | .clearCache => (none, e.clearCache)
  | .clearKeys pattern => (none, (e.clearKeys pattern).2)

/-- The answers to what is asked, one thing after another. -/
def answers (e : Engine) : List EngineAction → List (Option (Except Error Output))
  | [] => []
  | action :: rest => (e.act action).1 :: (e.act action).2.answers rest

/-- An engine over a store that does not fail, whose cache holds what it should. -/
structure Faithful (x : Executor) (store : Store) (e : Engine) : Prop where
  executor_eq : e.executor = x
  store_eq : e.source.store = store
  no_outages : e.source.outages = 0
  cache : ∀ c, e.cache = some c → c.Faithful x store

/-- The answer that a store gives to an action by itself. -/
def expected (x : Executor) (store : Store) : EngineAction → Option (Except Error Output)
  | .run statements allowed => some ((x.run statements allowed).resultOn store)
  | _ => none

variable (hr : ∀ e ∈ x.registry.stages, e.2.IgnoresListing)

include hr in
theorem Faithful.run (h : e.Faithful x store) (statements : List Statement)
    (allowed : Option (List String)) :
    (e.run statements allowed).1 = (x.run statements allowed).resultOn store ∧
      (e.run statements allowed).2.Faithful x store := by
  have hsource {t : Fetching Output} {result : Except Error Output} {source : Connection}
      (hsettle : t.settle e.source = (result, source)) :
      result = t.resultOn store ∧ source.store = store ∧ source.outages = 0 := by
    have hsettled := t.settle_of_no_outages h.no_outages
    rwa [hsettle, h.store_eq] at hsettled
  cases hcache : e.cache with
  | none =>
    rcases hsettle : (x.run statements allowed).settle e.source with ⟨result, source⟩
    obtain ⟨hresult, hstore, houtages⟩ := hsource hsettle
    simp only [Engine.run, share, hcache, h.executor_eq, hsettle]
    exact ⟨hresult, ⟨h.executor_eq, hstore, houtages, fun c hc => nomatch hc⟩⟩
  | some c =>
    obtain ⟨hentered, t, ht, hstands⟩ := (h.cache c hcache).enter hr statements allowed
    rcases hentry : c.enter (batchKey statements allowed) (x.run statements allowed)
      with ⟨admission, c'⟩
    rw [hentry] at hentered ht
    rcases hsettle : t.settle e.source with ⟨result, source⟩
    obtain ⟨rfl, hstore, houtages⟩ := hsource hsettle
    simp only [Engine.run, share, hcache, h.executor_eq, hentry, ht, Option.getD_some, hsettle]
    refine ⟨hstands statements allowed rfl, ⟨h.executor_eq, hstore, houtages, fun d hd => ?_⟩⟩
    obtain rfl := Option.some.inj hd
    exact (hentered.update ht).leave _ _ _

include hr in
/-- **One action.** -/
theorem Faithful.act (h : e.Faithful x store) (action : EngineAction) :
    (e.act action).1 = expected x store action ∧ (e.act action).2.Faithful x store := by
  cases action with
  | run statements allowed =>
    obtain ⟨hanswer, hnext⟩ := h.run hr statements allowed
    exact ⟨congrArg some hanswer, hnext⟩
  | advance milliseconds =>
    refine ⟨rfl, h.executor_eq, h.store_eq, h.no_outages, fun d hd => ?_⟩
    obtain ⟨c, hc, rfl⟩ := Option.map_eq_some_iff.mp hd
    exact (h.cache c hc).of_subset (List.Subset.refl _) rfl
  | clearCache =>
    refine ⟨rfl, h.executor_eq, h.store_eq, h.no_outages, fun d hd => ?_⟩
    obtain ⟨c, hc, rfl⟩ := Option.map_eq_some_iff.mp hd
    exact (h.cache c hc).of_subset (List.nil_subset _) rfl
  | clearKeys pattern =>
    refine ⟨rfl, ?_⟩
    rw [Engine.act, clearKeys]
    cases hcache : e.cache with
    | none => exact h
    | some c =>
      refine ⟨h.executor_eq, h.store_eq, h.no_outages, fun d hd => ?_⟩
      obtain rfl := Option.some.inj hd
      exact (h.cache c hcache).of_subset List.filter_sublist.subset rfl

include hr in
/-- **Any number of actions.** -/
theorem Faithful.answers (h : e.Faithful x store) (actions : List EngineAction) :
    e.answers actions = actions.map (expected x store) := by
  induction actions generalizing e with
  | nil => rfl
  | cons action rest ih =>
    obtain ⟨hanswer, hnext⟩ := h.act hr action
    rw [Engine.answers, List.map_cons, ih hnext, hanswer]

end Engine

namespace EngineParts

variable {p : EngineParts} {e : Engine}

/-- The same parts for an engine without a cache. -/
def cacheless (p : EngineParts) : EngineParts :=
  { p with config := { p.config with hasCache := false } }

theorem require_eq_ok {α : Type} {part : EnginePart} {o : Option α} {a : α} :
    require part o = .ok a ↔ o = some a := by
  cases o <;> simp [require]

/-- What an engine is put together from. -/
theorem of_build_eq_ok (h : p.build = .ok e) :
    ∃ catalog whitelist source, p.catalog = some catalog ∧ p.whitelist = some whitelist ∧
      p.source = some source ∧
      e = ⟨catalog, whitelist, p.registry.getD .builtin, p.config, source,
        if p.config.hasCache then some { lifetime := p.config.lifetimeMillis } else none⟩ := by
  unfold build at h
  obtain ⟨catalog, hcatalog, h⟩ := except_bind_eq_ok.mp h
  obtain ⟨whitelist, hwhitelist, h⟩ := except_bind_eq_ok.mp h
  obtain ⟨source, hsource, h⟩ := except_bind_eq_ok.mp h
  obtain ⟨_, -, h⟩ := except_bind_eq_ok.mp h
  exact ⟨catalog, whitelist, source, require_eq_ok.mp hcatalog, require_eq_ok.mp hwhitelist,
    require_eq_ok.mp hsource, (Except.ok.inj h).symm⟩

/-- Without a cache an engine can be built of all parts of which it can be built with one. -/
theorem build_cacheless (h : p.build = .ok e) :
    p.cacheless.build =
      .ok { e with config := p.cacheless.config, cache := none } := by
  obtain ⟨catalog, whitelist, source, hcatalog, hwhitelist, hsource, rfl⟩ := of_build_eq_ok h
  simp only [build, cacheless, hcatalog, hwhitelist, hsource]
  rfl

end EngineParts

namespace Engine

variable {p : EngineParts} {e : Engine}

/-- An engine that has just been built holds nothing that it should not. -/
theorem faithful_of_build (h : p.build = .ok e)
    (hsource : ∀ source, p.source = some source → source.outages = 0) :
    e.Faithful e.executor e.source.store := by
  obtain ⟨catalog, whitelist, source, -, -, hs, rfl⟩ := EngineParts.of_build_eq_ok h
  refine ⟨rfl, rfl, hsource source hs, fun c hc key entry hentry => ?_⟩
  obtain ⟨-, hc⟩ := Option.ite_some_none_eq_some.mp hc
  rw [← hc] at hentry
  cases hentry

theorem ignoresListing_getD {registry : Option Registry}
    (h : ∀ r, registry = some r → ∀ s ∈ r.stages, s.2 ∈ Builtin.all) :
    ∀ s ∈ (registry.getD .builtin).stages, s.2.IgnoresListing := by
  cases registry with
  | none =>
    rw [Option.getD_none]
    exact Registry.forall_stages_builtin Builtin.ignoresListing_of_mem_all
  | some r => exact fun s hs => Builtin.ignoresListing_of_mem_all _ (h r rfl s hs)

/-- **The cache changes no answer.** Take the parts of an engine whose stages are built in and
whose source does not fail, and anything that can be asked of it but changes of its rows. The
engine answers as the engine without a cache does, which gives each answer as if nothing had been
asked before. -/
theorem answers_eq_cacheless (p : EngineParts) (e : Engine) (hbuild : p.build = .ok e)
    (hregistry : ∀ r, p.registry = some r → ∀ s ∈ r.stages, s.2 ∈ Builtin.all)
    (hsource : ∀ source, p.source = some source → source.outages = 0)
    (actions : List EngineAction) :
    ∃ f, p.cacheless.build = .ok f ∧ e.answers actions = f.answers actions ∧
      f.answers actions = actions.map fun action => (f.act action).1 := by
  have hf := EngineParts.build_cacheless hbuild
  have hfaithful := faithful_of_build hbuild hsource
  have hcacheless := faithful_of_build hf hsource
  obtain ⟨catalog, whitelist, source, -, -, -, rfl⟩ := EngineParts.of_build_eq_ok hbuild
  have hr := ignoresListing_getD hregistry
  refine ⟨_, hf, ?_, ?_⟩
  · rw [hfaithful.answers hr, hcacheless.answers hr]
    rfl
  · rw [hcacheless.answers hr]
    exact List.map_congr_left fun action _ => (hcacheless.act hr action).1.symm

/-- Posts with a known author. -/
def knownAuthors : Statement where
  expression := .atom (.relation .forward "posts" "users")

/-- Questions about posts. The second one lists its tables in another way and shares the result
of the first, the third comes when that has expired, and the fourth when results about posts have
been forgotten. After the cache has been cleared, two without a list of tables share a run. -/
def blogActions : List EngineAction :=
  [.run [knownAuthors] (some ["posts", "users"]), .advance 1000,
    .run [knownAuthors] (some ["users", "posts", "users"]), .advance 300000,
    .run [knownAuthors] (some ["posts", "users"]), .clearKeys "~posts",
    .run [knownAuthors] (some ["posts", "users"]), .clearCache,
    .run [knownAuthors] none, .run [knownAuthors] none]

/-- The one post that there is. -/
def blogAnswer : EngineAction → Option (Except Error Output)
  | .run _ _ => some (.ok {
      context := [("_prev", { values := [.ofNat 7], column := some "id", table := some "posts" })]
      results := [("result", .arr [.ofNat 7])] })
  | _ => none

/-- The counts of the cache and the requests made so far, after each action. -/
def counts (e : Engine) : List EngineAction → List (CacheStats × Nat)
  | [] => []
  | action :: rest =>
    let next := (e.act action).2
    (next.stats, next.source.fetches) :: next.counts rest

/-- An engine with a cache over the rows of the blog. -/
def blogEngine : Engine where
  catalog := .blog
  whitelist := Executor.blogWhitelist
  registry := .builtin
  config := {}
  source := { store := Executor.blogStore "Ada" "a" }
  cache := some { lifetime := 300000 }

/-- Hits, misses and entries, and the requests: a run makes two of them, and a hit none. -/
def blogCounts : List (CacheStats × Nat) :=
  [(⟨0, 1, 1⟩, 2), (⟨0, 1, 1⟩, 2), (⟨1, 1, 1⟩, 2), (⟨1, 1, 1⟩, 2), (⟨1, 2, 1⟩, 4),
    (⟨1, 2, 0⟩, 4), (⟨1, 3, 1⟩, 6), (⟨0, 0, 0⟩, 6), (⟨0, 1, 1⟩, 8), (⟨1, 1, 1⟩, 8)]

theorem counts_blogEngine : blogEngine.counts blogActions = blogCounts := by
  -- the keys are written out first, as sorting by merging does not evaluate
  have htables : ["posts", "users"].Pairwise (· < ·) := by decide +kernel
  have hkey := batchKey_of_ascending [knownAuthors] htables fun table => Iff.rfl
  have hkey' : batchKey [knownAuthors] (some ["users", "posts", "users"]) = _ :=
    batchKey_of_ascending [knownAuthors] htables fun table => by grind
  simp only [counts, blogActions, Engine.act, Engine.run, hkey, hkey']
  decide +kernel

/-- The answers are the same while the cache is used in all ways: there are hits, an expired
result, and results that are cleared. Without the cache every run makes its requests. -/
theorem answers_eq_cacheless_blog :
    let p : EngineParts := {
      catalog := some .blog
      whitelist := some Executor.blogWhitelist
      source := some { store := Executor.blogStore "Ada" "a" } }
    ∃ f, p.build = .ok blogEngine ∧ p.cacheless.build = .ok f ∧ f.cache.isNone = true ∧
      blogEngine.answers blogActions = f.answers blogActions ∧
      f.answers blogActions = blogActions.map blogAnswer ∧
      blogEngine.counts blogActions = blogCounts ∧
      (f.counts blogActions).map Prod.snd = [2, 2, 4, 4, 6, 6, 8, 8, 10, 12] := by
  intro p
  have hbuild : p.build = .ok blogEngine := rfl
  obtain ⟨f, hf, hsame, hfresh⟩ := answers_eq_cacheless p blogEngine hbuild (fun _ h => nomatch h)
    (fun source h => by rw [← Option.some.inj h]) blogActions
  obtain rfl := Except.ok.inj hf
  refine ⟨_, hbuild, hf, rfl, hsame, hfresh.trans ?_, counts_blogEngine, by decide +kernel⟩
  decide +kernel

end Engine

end TableQuery
