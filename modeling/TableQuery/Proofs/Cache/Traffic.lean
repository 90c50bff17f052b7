import Mathlib.Data.List.Induction
import TableQuery.Proofs.Cache.Entries

/-!
# Traffic at a cache

Callers come, computations settle, callers who have waited go on, time passes, and the cache is
cleared, in any order. A history is a list of such events, and `TableQuery.Traffic.run` is what
has become of a new cache after a history.

A computation runs until it settles, once, with a value or a failure; so its state is the
outcome it has by now, if it has one. Callers are known by their places in the order in which
they came. A caller leaves when it goes on and its computation is settled; before that it can
only wait, and afterwards it is gone, so other events of this kind change nothing.

Whatever happens, callers stay in their places, and what they have left with and the outcomes of
computations do not change any more (`TableQuery.Traffic.extends_run`).
-/

namespace TableQuery

/-- Something that happens at a cache. -/
inductive CacheEvent (ε α : Type) where
  /-- A caller comes who asks for the result of a key. -/
  | call (key : String)
  /-- A computation comes to its end. -/
  | settle (number : Nat) (outcome : Except ε α)
  /-- A caller who has waited goes on. -/
  | resume (caller : Nat)
  | advance (milliseconds : Nat)
  /-- All entries are dropped and the counts reset, taken as one step. -/
  | clear
  | clearKeys (pattern : String)

/-- The event drops the entries of a key, whatever they stand for. -/
def CacheEvent.Clears {ε α : Type} (key : String) : CacheEvent ε α → Prop
  | .clear => True
  | .clearKeys pattern => Cache.keyMatches pattern key = true
  | _ => False

/-- Someone who has come to a cache. -/
structure Caller extends Admission where
  key : String
  arrivedAt : Nat
deriving DecidableEq, Repr

/-- A cache with all who have come to it. -/
structure Traffic (ε α : Type) where
  /-- The state of a computation is its outcome; there is none while it is running. -/
  cache : Cache (Option (Except ε α))
  callers : List Caller := []
  /-- Who has left, by their places among the callers, and with which outcomes. -/
  returns : List (Nat × Except ε α) := []

/-- The entry of a caller's own computation. -/
def Caller.entry (c : Caller) : CacheEntry :=
  ⟨c.arrivedAt, c.number⟩

/-- The last caller so far who has started a computation for a key. -/
def latestStart? (callers : List Caller) (key : String) : Option Caller :=
  callers.reverse.find? fun c => c.isOwn && c.key == key

theorem latestStart?_append (callers : List Caller) (c : Caller) (key : String) :
    latestStart? (callers ++ [c]) key =
      if c.isOwn && c.key == key then some c else latestStart? callers key := by
  rw [latestStart?, List.reverse_append, List.reverse_singleton, List.singleton_append,
    List.find?_cons]
  cases c.isOwn && c.key == key <;> rfl

theorem of_latestStart? {callers : List Caller} {key : String} {c : Caller}
    (h : latestStart? callers key = some c) : c ∈ callers ∧ c.isOwn = true ∧ c.key = key := by
  have hmem := List.mem_reverse.mp (List.mem_of_find?_eq_some h)
  have hfound := List.find?_some h
  rw [Bool.and_eq_true, beq_iff_eq] at hfound
  exact ⟨hmem, hfound⟩

namespace Traffic

variable {ε α : Type}

/-! ### Steps -/

/-- The outcome of a computation, if it is settled. -/
def outcome? (t : Traffic ε α) (number : Nat) : Option (Except ε α) :=
  (t.cache.computation? number).join

/-- What a caller has left with, if it has left. -/
def result? (t : Traffic ε α) (caller : Nat) : Option (Except ε α) :=
  t.returns.lookup caller

/-- A caller who is there and whose computation is settled, with the outcome. -/
def leaving? (t : Traffic ε α) (caller : Nat) : Option (Caller × Except ε α) :=
  match t.callers[caller]?, t.result? caller with
  | some c, none => (t.outcome? c.number).map (c, ·)
  | _, _ => none

/-- A caller comes. It brings a computation, which runs if the caller starts it. -/
def call (t : Traffic ε α) (key : String) : Traffic ε α :=
  let (admission, cache) := t.cache.enter key none
  { t with cache := cache, callers := t.callers ++ [⟨admission, key, t.cache.clock⟩] }

/-- A computation that is running comes to its end. -/
def settle (t : Traffic ε α) (number : Nat) (outcome : Except ε α) : Traffic ε α :=
  match t.cache.computation? number with
  | some none => { t with cache := t.cache.update number (some outcome) }
  | _ => t

/-- A caller leaves, if it can. -/
def resume (t : Traffic ε α) (caller : Nat) : Traffic ε α :=
  match t.leaving? caller with
  | some (c, result) =>
    { t with
      cache := t.cache.leave c.key c.number result
      returns := (caller, result) :: t.returns }
  | none => t

/-- A caller who comes now starts a computation. -/
def starts (t : Traffic ε α) (key : String) : Bool :=
  (t.cache.enter key none).1.isOwn

/-- The entry of a computation that is started now. -/
def nextEntry (t : Traffic ε α) : CacheEntry :=
  ⟨t.cache.clock, t.cache.computations.length⟩

/-- One event. -/
def step (t : Traffic ε α) : CacheEvent ε α → Traffic ε α
  | .call key => t.call key
  | .settle number outcome => t.settle number outcome
  | .resume caller => t.resume caller
  | .advance milliseconds => { t with cache := t.cache.advance milliseconds }
  | .clear => { t with cache := t.cache.clear }
  | .clearKeys pattern => { t with cache := (t.cache.clearKeys pattern).2 }

/-- What has become of a new cache after a history. -/
def run (lifetime : Nat) (history : List (CacheEvent ε α)) : Traffic ε α :=
  history.foldl step ⟨{ lifetime := lifetime }, [], []⟩

@[simp] theorem run_concat (lifetime : Nat) (history : List (CacheEvent ε α))
    (event : CacheEvent ε α) :
    run lifetime (history ++ [event]) = (run lifetime history).step event := by
  rw [run, List.foldl_append]
  rfl

variable {t t' : Traffic ε α} {event : CacheEvent ε α} {number caller : Nat} {c : Caller}

theorem leaving?_eq_some {outcome : Except ε α} :
    t.leaving? caller = some (c, outcome) ↔
      t.callers[caller]? = some c ∧ t.result? caller = none ∧
        t.outcome? c.number = some outcome := by
  unfold leaving?
  split
  · rename_i d hcaller hresult
    rw [hcaller, hresult, Option.map_eq_some_iff]
    constructor
    · rintro ⟨_, houtcome, heq⟩
      obtain ⟨rfl, rfl⟩ := Prod.mk.inj heq
      exact ⟨rfl, rfl, houtcome⟩
    · rintro ⟨hc, -, houtcome⟩
      obtain rfl := Option.some.inj hc
      exact ⟨outcome, houtcome, rfl⟩
  · rename_i hnone
    refine ⟨fun h => (nomatch h), fun ⟨hcaller, hresult, _⟩ => ?_⟩
    exact (hnone c hcaller hresult).elim

theorem outcome?_eq_some {outcome : Except ε α} :
    t.outcome? number = some outcome ↔ t.cache.computations[number]? = some (some outcome) :=
  Option.join_eq_some_iff

/-! ### What a step can do -/

theorem settle_cases (t : Traffic ε α) (number : Nat) (outcome : Except ε α) :
    t.settle number outcome = t ∨
      t.cache.computations[number]? = some none ∧
        t.settle number outcome = { t with cache := t.cache.update number (some outcome) } := by
  unfold settle
  split
  · rename_i hrunning
    exact .inr ⟨hrunning, rfl⟩
  · exact .inl rfl

theorem resume_cases (t : Traffic ε α) (caller : Nat) :
    t.leaving? caller = none ∧ t.resume caller = t ∨
      ∃ c outcome, t.leaving? caller = some (c, outcome) ∧
        t.resume caller =
          { t with
            cache := t.cache.leave c.key c.number outcome
            returns := (caller, outcome) :: t.returns } := by
  unfold resume
  cases t.leaving? caller with
  | none => exact .inl ⟨rfl, rfl⟩
  | some leaving => exact .inr ⟨leaving.1, leaving.2, rfl, rfl⟩

/-! ### What stays -/

/-- Who has come has come, who has left has left, and **outcomes are final**. -/
structure Extends (t t' : Traffic ε α) : Prop where
  caller : ∀ (i : Nat) (c : Caller), t.callers[i]? = some c → t'.callers[i]? = some c
  result : ∀ i outcome, t.result? i = some outcome → t'.result? i = some outcome
  outcome : ∀ number outcome, t.outcome? number = some outcome → t'.outcome? number = some outcome

theorem Extends.refl (t : Traffic ε α) : Extends t t :=
  ⟨fun _ _ h => h, fun _ _ h => h, fun _ _ h => h⟩

theorem Extends.trans {t t' t'' : Traffic ε α} (h : Extends t t') (h' : Extends t' t'') :
    Extends t t'' :=
  ⟨fun i c hc => h'.caller i c (h.caller i c hc), fun i r hr => h'.result i r (h.result i r hr),
    fun n r hr => h'.outcome n r (h.outcome n r hr)⟩

theorem extends_call (t : Traffic ε α) (key : String) : Extends t (t.call key) := by
  refine ⟨fun i c hc => ?_, fun _ _ h => h, fun number outcome houtcome => ?_⟩
  · exact (List.getElem?_append_left (List.getElem?_eq_some_iff.mp hc).1).trans hc
  · rw [outcome?_eq_some] at houtcome ⊢
    exact Cache.computation?_enter houtcome key none

theorem extends_settle (t : Traffic ε α) (number : Nat) (outcome : Except ε α) :
    Extends t (t.settle number outcome) := by
  rcases t.settle_cases number outcome with h | ⟨hrunning, h⟩
  · rw [h]
    exact .refl t
  · rw [h]
    refine ⟨fun _ _ h => h, fun _ _ h => h, fun n r hr => ?_⟩
    rw [outcome?_eq_some] at hr ⊢
    -- a computation that is settled is not the one that was running
    have hne : number ≠ n := by
      rintro rfl
      rw [hrunning] at hr
      cases hr
    exact (List.getElem?_set_ne hne).trans hr

theorem extends_resume (t : Traffic ε α) (caller : Nat) : Extends t (t.resume caller) := by
  rcases t.resume_cases caller with ⟨-, h⟩ | ⟨c, outcome, hleaving, h⟩
  · rw [h]
    exact .refl t
  · rw [h]
    refine ⟨fun _ _ h => h, fun i result hi => ?_, fun n r hr => ?_⟩
    · have hne : i ≠ caller := by
        rintro rfl
        rw [(leaving?_eq_some.mp hleaving).2.1] at hi
        cases hi
      rw [result?, List.lookup_cons, beq_eq_false_iff_ne.mpr hne]
      exact hi
    · rw [outcome?_eq_some] at hr ⊢
      rw [Cache.computations_leave]
      exact hr

theorem extends_step (t : Traffic ε α) (event : CacheEvent ε α) : Extends t (t.step event) := by
  cases event with
  | call key => exact extends_call t key
  | settle number outcome => exact extends_settle t number outcome
  | resume caller => exact extends_resume t caller
  | advance milliseconds => exact ⟨fun _ _ h => h, fun _ _ h => h, fun _ _ h => h⟩
  | clear => exact ⟨fun _ _ h => h, fun _ _ h => h, fun _ _ h => h⟩
  | clearKeys pattern => exact ⟨fun _ _ h => h, fun _ _ h => h, fun _ _ h => h⟩

theorem extends_run (lifetime : Nat) (history more : List (CacheEvent ε α)) :
    Extends (run lifetime history) (run lifetime (history ++ more)) := by
  induction more using List.reverseRecOn with
  | nil =>
    rw [List.append_nil]
    exact .refl _
  | append_singleton more event ih =>
    rw [← List.append_assoc, run_concat]
    exact ih.trans (extends_step _ event)

/-- Nobody has come, and nothing was entered: time may have passed, entries may have gone, and
computations may have settled. -/
structure Kept (t t' : Traffic ε α) : Prop where
  lifetime_eq : t'.cache.lifetime = t.cache.lifetime
  clock_le : t.cache.clock ≤ t'.cache.clock
  entries_sublist : t'.cache.entries.Sublist t.cache.entries
  length_eq : t'.cache.computations.length = t.cache.computations.length
  callers_eq : t'.callers = t.callers

theorem Kept.refl (t : Traffic ε α) : Kept t t :=
  ⟨rfl, le_rfl, .refl _, rfl, rfl⟩

theorem kept_step (t : Traffic ε α) (h : ∀ key, event ≠ .call key) : Kept t (t.step event) := by
  cases event with
  | call key => exact (h key rfl).elim
  | settle number outcome =>
    rcases t.settle_cases number outcome with hsame | ⟨-, hsame⟩
    · rw [step, hsame]
      exact .refl t
    · rw [step, hsame]
      exact ⟨rfl, le_rfl, .refl _, List.length_set, rfl⟩
  | resume caller =>
    rcases t.resume_cases caller with ⟨-, hsame⟩ | ⟨c, outcome, -, hsame⟩
    · rw [step, hsame]
      exact .refl t
    · rw [step, hsame]
      cases outcome with
      | ok value => exact ⟨rfl, le_rfl, .refl _, rfl, rfl⟩
      | error failure => exact ⟨rfl, le_rfl, List.filter_sublist, rfl, rfl⟩
  | advance milliseconds => exact ⟨rfl, Nat.le_add_right .., .refl _, rfl, rfl⟩
  | clear => exact ⟨rfl, le_rfl, List.nil_sublist _, rfl, rfl⟩
  | clearKeys pattern => exact ⟨rfl, le_rfl, List.filter_sublist, rfl, rfl⟩

end Traffic

end TableQuery
