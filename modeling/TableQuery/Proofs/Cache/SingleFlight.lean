import TableQuery.Proofs.Cache.Consistency

/-!
# One computation at a time

However calls, settlements, waiting callers, the clock and clearings follow one another, a cache
runs no more computations than its lifetime asks for (`TableQuery.Traffic.single_flight`). A call
starts a computation exactly when no entry of its key is young enough. A call that starts none
has the outcome of the last computation that was started for its key, and that start is less than
a lifetime ago. So between two starts for one key a lifetime has passed, or something has dropped
the entry of the first: a clearing, or a caller who left with the failure of that computation.

The counts are those of the calls since the last clearing.
-/

namespace TableQuery

namespace CacheEvent

variable {ε α : Type}

def isCall : CacheEvent ε α → Bool
  | .call _ => true
  | _ => false

def isClear : CacheEvent ε α → Bool
  | .clear => true
  | _ => false

/-- How many callers have come since the cache was last cleared. -/
def callsSinceClear (history : List (CacheEvent ε α)) : Nat :=
  (history.reverse.takeWhile fun event => !event.isClear).countP isCall

theorem callsSinceClear_concat (history : List (CacheEvent ε α)) (event : CacheEvent ε α) :
    callsSinceClear (history ++ [event]) =
      if event.isClear then 0
      else if event.isCall then callsSinceClear history + 1
      else callsSinceClear history := by
  rw [callsSinceClear, List.reverse_append, List.reverse_singleton, List.singleton_append,
    List.takeWhile_cons]
  cases event <;> simp [isClear, isCall, callsSinceClear, List.countP_cons]

end CacheEvent

namespace Traffic

variable {ε α : Type} {t : Traffic ε α} {event : CacheEvent ε α} {lifetime number caller : Nat}
  {key : String} {e : CacheEntry}

/-- The event is that a caller of a key leaves with the failure of a computation. -/
def LeavesFailed (t : Traffic ε α) (key : String) (number : Nat) (event : CacheEvent ε α) : Prop :=
  ∃ i c failure, event = .resume i ∧ t.callers[i]? = some c ∧ c.key = key ∧ c.number = number ∧
    t.outcome? number = some (.error failure)

/-- The entry of a key goes with an event before its time: a clearing drops it, or a caller who
leaves with the failure of its computation. -/
def Drops (t : Traffic ε α) (key : String) (e : CacheEntry) (event : CacheEvent ε α) : Prop :=
  (key, e) ∈ t.cache.entries ∧ (key, e) ∉ (t.step event).cache.entries ∧
    (event.Clears key ∨ t.LeavesFailed key e.number event)

/-! ### Shared computations -/

/-- Whoever goes on leaves with the outcome of its computation once that is settled. -/
theorem result?_resume (h : ReturnsSettled t) {c : Caller} (hc : t.callers[caller]? = some c) :
    (t.resume caller).result? caller = t.outcome? c.number := by
  rcases t.resume_cases caller with ⟨hnone, hsame⟩ | ⟨d, outcome, hleaving, hleft⟩
  · rw [hsame]
    cases hresult : t.result? caller with
    | some outcome =>
      obtain ⟨d, hd, houtcome, -⟩ := h caller outcome hresult
      obtain rfl : c = d := Option.some.inj (hc.symm.trans hd)
      exact houtcome.symm
    | none =>
      cases houtcome : t.outcome? c.number with
      | none => rfl
      | some outcome =>
        rw [leaving?_eq_some.mpr ⟨hc, hresult, houtcome⟩] at hnone
        cases hnone
  · obtain ⟨hd, -, houtcome⟩ := leaving?_eq_some.mp hleaving
    obtain rfl : c = d := Option.some.inj (hc.symm.trans hd)
    rw [hleft, result?, List.lookup_cons_self, houtcome]

/-! ### Separation -/

theorem clock_le_step (t : Traffic ε α) (event : CacheEvent ε α) :
    t.cache.clock ≤ (t.step event).cache.clock := by
  by_cases hcall : ∃ key, event = .call key
  · obtain ⟨key, rfl⟩ := hcall
    exact (t.cache.clock_enter key none).ge
  · exact (kept_step t fun key heq => hcall ⟨key, heq⟩).clock_le

theorem clock_le_run (lifetime : Nat) (before between : List (CacheEvent ε α)) :
    (run lifetime before).cache.clock ≤ (run lifetime (before ++ between)).cache.clock := by
  induction between using List.reverseRecOn with
  | nil => rw [List.append_nil]
  | append_singleton between event ih =>
    rw [← List.append_assoc, run_concat]
    exact ih.trans (clock_le_step _ event)

/-- An entry that is no longer there has gone with one of the events since. -/
theorem exists_event_of_gone (before between : List (CacheEvent ε α))
    (he : (key, e) ∈ (run lifetime before).cache.entries)
    (hgone : (key, e) ∉ (run lifetime (before ++ between)).cache.entries) :
    ∃ first event last, between = first ++ event :: last ∧
      (key, e) ∈ (run lifetime (before ++ first)).cache.entries ∧
      (key, e) ∉ ((run lifetime (before ++ first)).step event).cache.entries := by
  induction between generalizing before with
  | nil => exact (hgone (by rwa [List.append_nil])).elim
  | cons event rest ih =>
    by_cases hstays : (key, e) ∈ (run lifetime (before ++ [event])).cache.entries
    · rw [List.append_cons] at hgone
      obtain ⟨first, next, last, rfl, hthere, hleaves⟩ := ih (before ++ [event]) hstays hgone
      rw [← List.append_cons] at hthere hleaves
      exact ⟨event :: first, next, last, rfl, hthere, hleaves⟩
    · rw [run_concat] at hstays
      exact ⟨[], event, rest, rfl, by rwa [List.append_nil], by rwa [List.append_nil]⟩

theorem Consistent.drops_or_old (h : Consistent lifetime t) (he : (key, e) ∈ t.cache.entries)
    (hgone : (key, e) ∉ (t.step event).cache.entries) :
    t.Drops key e event ∨ e.startedAt + lifetime ≤ t.cache.clock := by
  cases h.departure he hgone with
  | cleared hclears => exact .inl ⟨he, hgone, .inl hclears⟩
  | failed hcaller hkey hnumber houtcome =>
    exact .inl ⟨he, hgone, .inr ⟨_, _, _, rfl, hcaller, hkey, hnumber, houtcome⟩⟩
  | replaced _ hold => exact .inr (h.lifetime_eq ▸ hold)

/-- **Between two starts for one key** a lifetime passes, or the entry of the first is dropped. -/
theorem separated_of_starts (before between : List (CacheEvent ε α)) (key : String)
    (hfirst : (run lifetime before).starts key = true)
    (hsecond : (run lifetime (before ++ .call key :: between)).starts key = true) :
    (run lifetime before).cache.clock + lifetime ≤
        (run lifetime (before ++ .call key :: between)).cache.clock ∨
      ∃ first event last, between = first ++ event :: last ∧
        (run lifetime (before ++ .call key :: first)).Drops key
          (run lifetime before).nextEntry event := by
  have hentry := (consistent_run lifetime before).mem_entries_call hfirst
  rw [← step, ← run_concat] at hentry
  by_cases hstays : (key, (run lifetime before).nextEntry) ∈
      (run lifetime (before ++ .call key :: between)).cache.entries
  · have hold := ((consistent_run lifetime _).starts_iff key).mp hsecond _ hstays
    exact .inl (not_lt.mp hold)
  · rw [List.append_cons] at hstays
    obtain ⟨first, event, last, rfl, hthere, hgone⟩ :=
      exists_event_of_gone (before ++ [.call key]) between hentry hstays
    rcases (consistent_run lifetime _).drops_or_old hthere hgone with hdrops | hold
    · rw [← List.append_cons] at hdrops
      exact .inr ⟨first, event, last, rfl, hdrops⟩
    · have hlater := clock_le_run lifetime (before ++ [.call key] ++ first) (event :: last)
      rw [List.append_assoc _ first, ← List.append_cons _ _ (first ++ event :: last)] at hlater
      exact .inl (hold.trans hlater)

/-! ### Counts -/

theorem hits_add_misses_run (history : List (CacheEvent ε α)) :
    (run lifetime history).cache.hits + (run lifetime history).cache.misses =
      CacheEvent.callsSinceClear history := by
  induction history using List.reverseRecOn with
  | nil => rfl
  | append_singleton history event ih =>
    rw [CacheEvent.callsSinceClear_concat, run_concat, ← ih]
    cases event with
    | call key =>
      have hkeyed := (consistent_run lifetime history).keyed
      rw [step, call]
      rcases Cache.enter_cases hkeyed key none with ⟨e, -, -, henter⟩ | ⟨-, henter⟩
      · rw [henter]
        exact Nat.add_right_comm ..
      · rw [henter]
        exact (Nat.add_assoc ..).symm
    | settle number outcome =>
      rcases settle_cases (run lifetime history) number outcome with hsame | ⟨-, hsame⟩
      all_goals
        rw [step, hsame]
        rfl
    | resume caller =>
      rcases resume_cases (run lifetime history) caller with ⟨-, hsame⟩ | ⟨c, outcome, -, hsame⟩
      · rw [step, hsame]
        rfl
      · rw [step, hsame]
        cases outcome <;> rfl
    | advance milliseconds => rfl
    | clear => rfl
    | clearKeys pattern => rfl

/-! ### The cache as a whole -/

/-- **One computation at a time, for as long as the lifetime.** After any history

* a caller who comes starts a computation exactly when no entry of its key is younger than the
  lifetime;
* a caller who has started none shares the computation that was started last for its key before
  it came, less than a lifetime earlier, and it leaves with the outcome of that computation and
  no other;
* between two starts for one key a lifetime passes, or the entry of the first is dropped by a
  clearing or by a caller who leaves with the failure of that first computation;
* the counts add up to the number of callers since the last clearing. -/
theorem single_flight (lifetime : Nat) (history : List (CacheEvent ε α)) :
    let t := run lifetime history
    (∀ key,
      (t.starts key = true ↔
        ∀ e, (key, e) ∈ t.cache.entries → ¬ t.cache.clock < e.startedAt + lifetime) ∧
      (t.step (.call key)).cache.computations =
        (if t.starts key then t.cache.computations ++ [none] else t.cache.computations) ∧
      ∃ number, (t.step (.call key)).callers =
        t.callers ++ [⟨⟨number, t.starts key⟩, key, t.cache.clock⟩]) ∧
    (∀ i c, t.callers[i]? = some c → c.isOwn = false →
      ∃ first, latestStart? (t.callers.take i) c.key = some first ∧
        c.arrivedAt < first.arrivedAt + lifetime ∧
        (∀ outcome, t.result? i = some outcome → t.outcome? first.number = some outcome) ∧
        (t.step (.resume i)).result? i = t.outcome? first.number) ∧
    (∀ before key between, history = before ++ .call key :: between →
      (run lifetime before).starts key = true → t.starts key = true →
      (run lifetime before).cache.clock + lifetime ≤ t.cache.clock ∨
        ∃ first event last, between = first ++ event :: last ∧
          (run lifetime (before ++ .call key :: first)).Drops key
            (run lifetime before).nextEntry event) ∧
    t.cache.hits + t.cache.misses = CacheEvent.callsSinceClear history := by
  intro t
  have hconsistent := consistent_run (ε := ε) (α := α) lifetime history
  have hreturns := returnsSettled_run (ε := ε) (α := α) lifetime history
  refine ⟨fun key => ⟨hconsistent.starts_iff key, hconsistent.computations_call key, ?_⟩,
    fun i c hc hshared => ?_, ?_, hits_add_misses_run history⟩
  · exact ⟨(t.cache.enter key none).1.number, rfl⟩
  · obtain ⟨first, hfirst, hnumber, hyoung⟩ := hconsistent.shared i c hc hshared
    refine ⟨first, hfirst, hyoung, fun outcome hresult => ?_, ?_⟩
    · obtain ⟨d, hd, houtcome, -⟩ := hreturns i outcome hresult
      obtain rfl : c = d := Option.some.inj (hc.symm.trans hd)
      rw [← hnumber]
      exact houtcome
    · rw [← hnumber]
      exact result?_resume hreturns hc
  · rintro before key between rfl hfirst hsecond
    exact separated_of_starts before between key hfirst hsecond

/-- The second of two callers shares a failure, and a third one starts anew: within the lifetime,
but after the first caller has left. -/
theorem single_flight_shared_failure :
    let between : List (CacheEvent String Nat) :=
      [.advance 5, .call "posts", .settle 0 (.error "down"), .resume 0]
    let t := run 10 (.call "posts" :: between)
    t.callers[1]? = some ⟨⟨0, false⟩, "posts", 5⟩ ∧
      (t.step (.resume 1)).result? 1 = some (.error "down") ∧
      t.starts "posts" = true ∧
      ∃ first event last, between = first ++ event :: last ∧
        (run 10 (.call "posts" :: first)).Drops "posts" ⟨0, 0⟩ event := by
  intro between t
  obtain ⟨-, hshared, hseparated, -⟩ := single_flight 10 (.call "posts" :: between)
  obtain ⟨first, hfirst, -, -, hresume⟩ := hshared 1 ⟨⟨0, false⟩, "posts", 5⟩ rfl rfl
  obtain rfl : (⟨⟨0, true⟩, "posts", 0⟩ : Caller) = first := Option.some.inj hfirst
  refine ⟨rfl, hresume, rfl, ?_⟩
  rcases hseparated [] "posts" between rfl rfl rfl with hlate | hdropped
  · exact absurd hlate (by decide)
  · exact hdropped

end Traffic

end TableQuery
