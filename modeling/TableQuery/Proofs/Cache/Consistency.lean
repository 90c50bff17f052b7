import TableQuery.Proofs.Cache.Traffic

/-!
# What holds after every history

Two invariants carry all that is said about caches and their callers.

* **Entries and callers stand for computations** (`TableQuery.Traffic.Consistent`). An entry
  stands for the last computation that was started for its key, and a caller who shares a
  computation shares the one that was the last when it came. It holds because computations are
  numbered in the order of their starts.
* **Who has left has left with an outcome** (`TableQuery.Traffic.ReturnsSettled`), that of its
  computation; and who has left with a failure has left no entry for it behind.

From the first it follows how entries go: cleared, removed by a caller of the very computation
that has failed, or replaced when they are too old (`TableQuery.Traffic.Departure`).
-/

namespace TableQuery

namespace Traffic

variable {ε α : Type} {t t' : Traffic ε α} {event : CacheEvent ε α} {lifetime caller : Nat}
  {c : Caller} {key : String} {e : CacheEntry}

/-! ### Entries and callers -/

/-- A caller shares the last computation that was started for its key by one of those before it,
and comes within the lifetime of that start. -/
def SharesLatest (lifetime : Nat) (callers : List Caller) (c : Caller) : Prop :=
  ∃ first, latestStart? callers c.key = some first ∧ c.number = first.number ∧
    c.arrivedAt < first.arrivedAt + lifetime

/-- **What entries and callers stand for.** -/
structure Consistent (lifetime : Nat) (t : Traffic ε α) : Prop where
  lifetime_eq : t.cache.lifetime = lifetime
  keyed : t.cache.Keyed
  /-- An entry stands for the last computation that was started for its key. -/
  latest : ∀ key e, (key, e) ∈ t.cache.entries →
    ∃ first, latestStart? t.callers key = some first ∧ e = first.entry
  arrived : ∀ c ∈ t.callers, c.arrivedAt ≤ t.cache.clock
  numbered : ∀ c ∈ t.callers, c.number < t.cache.computations.length
  /-- A computation has a greater number than those that were there before it. -/
  increasing : t.callers.Pairwise fun c d => d.isOwn = true → c.number < d.number
  shared : ∀ i c, t.callers[i]? = some c → c.isOwn = false →
    SharesLatest lifetime (t.callers.take i) c

theorem Consistent.of_kept (h : Consistent lifetime t) (hkept : Kept t t') :
    Consistent lifetime t' where
  lifetime_eq := hkept.lifetime_eq.trans h.lifetime_eq
  keyed := h.keyed.sublist (hkept.entries_sublist.map _)
  latest key e he := by
    rw [hkept.callers_eq]
    exact h.latest key e (hkept.entries_sublist.subset he)
  arrived c hc := (h.arrived c (hkept.callers_eq ▸ hc)).trans hkept.clock_le
  numbered c hc := hkept.length_eq ▸ h.numbered c (hkept.callers_eq ▸ hc)
  increasing := hkept.callers_eq ▸ h.increasing
  shared := hkept.callers_eq ▸ h.shared

theorem consistent_start (lifetime : Nat) :
    Consistent lifetime (run lifetime ([] : List (CacheEvent ε α))) := by
  constructor <;> simp [run, Cache.Keyed]

theorem caller_cases {callers : List Caller} {d : Caller}
    (h : (callers ++ [c])[caller]? = some d) :
    caller < callers.length ∧ callers[caller]? = some d ∨ caller = callers.length ∧ c = d := by
  rcases lt_or_ge caller callers.length with hlt | hge
  · exact .inl ⟨hlt, by rwa [List.getElem?_append_left hlt] at h⟩
  · have hplace : caller = callers.length := by
      obtain ⟨hlt, -⟩ := List.getElem?_eq_some_iff.mp h
      rw [List.length_append, List.length_singleton] at hlt
      exact Nat.le_antisymm (Nat.le_of_lt_succ hlt) hge
    rw [hplace, List.getElem?_concat_length] at h
    exact .inr ⟨hplace, Option.some.inj h⟩

/-- The invariant survives a new caller, whether it shares a computation or has started one. Both
change the callers in the same way, so this is shown for any cache they may leave behind. -/
theorem Consistent.come {cache : Cache (Option (Except ε α))} (h : Consistent lifetime t)
    (hlifetime : cache.lifetime = t.cache.lifetime) (hclock : cache.clock = t.cache.clock)
    (hlength : t.cache.computations.length ≤ cache.computations.length) (hkeyed : cache.Keyed)
    (hlatest : ∀ key e, (key, e) ∈ cache.entries →
      ∃ first, latestStart? (t.callers ++ [c]) key = some first ∧ e = first.entry)
    (harrived : c.arrivedAt = t.cache.clock) (hnumber : c.number < cache.computations.length)
    (hown : c.isOwn = true → c.number = t.cache.computations.length)
    (hshared : c.isOwn = false → SharesLatest lifetime t.callers c) :
    Consistent lifetime { t with cache := cache, callers := t.callers ++ [c] } where
  lifetime_eq := hlifetime.trans h.lifetime_eq
  keyed := hkeyed
  latest := hlatest
  arrived d hd := by
    rcases List.mem_append.mp hd with hd | hd
    · exact (h.arrived d hd).trans hclock.ge
    · rw [List.mem_singleton.mp hd]
      exact (harrived.trans hclock.symm).le
  numbered d hd := by
    rcases List.mem_append.mp hd with hd | hd
    · exact (h.numbered d hd).trans_le hlength
    · rwa [List.mem_singleton.mp hd]
  increasing := by
    refine List.pairwise_append.mpr ⟨h.increasing, List.pairwise_singleton .., fun d hd a ha => ?_⟩
    rw [List.mem_singleton.mp ha]
    intro hstarts
    rw [hown hstarts]
    exact h.numbered d hd
  shared i d hd hd' := by
    rcases caller_cases hd with ⟨hi, hd⟩ | ⟨rfl, rfl⟩
    · rw [List.take_append_of_le_length hi.le]
      exact h.shared i d hd hd'
    · rw [List.take_left]
      exact hshared hd'

theorem Consistent.call (h : Consistent lifetime t) (key : String) :
    Consistent lifetime (t.call key) := by
  rcases Cache.enter_cases h.keyed key none with ⟨e, he, hyoung, henter⟩ | ⟨-, henter⟩
  · obtain ⟨first, hfirst, rfl⟩ := h.latest key e he
    have hyoung : t.cache.clock < first.arrivedAt + lifetime := by
      change t.cache.clock - first.arrivedAt < t.cache.lifetime at hyoung
      rw [h.lifetime_eq] at hyoung
      omega
    rw [Traffic.call, henter]
    refine h.come rfl rfl le_rfl h.keyed (fun k d hd => ?_) rfl
      (h.numbered first (of_latestStart? hfirst).1) (fun hown => nomatch hown)
      (fun _ => ⟨first, hfirst, rfl, hyoung⟩)
    rw [latestStart?_append]
    exact h.latest k d hd
  · rw [Traffic.call, henter]
    refine h.come rfl rfl (by simp) ?_ (fun k d hd => ?_) rfl (by simp) (fun _ => rfl)
      (fun hown => nomatch hown)
    · refine List.nodup_cons.mpr ⟨fun hkey => ?_, h.keyed.sublist (List.filter_sublist.map _)⟩
      obtain ⟨d, hd, rfl⟩ := List.mem_map.mp hkey
      simpa using (List.mem_filter.mp hd).2
    · rw [latestStart?_append]
      rcases List.mem_cons.mp hd with heq | hd
      · obtain ⟨rfl, rfl⟩ := Prod.mk.inj heq
        exact ⟨_, by rw [beq_self_eq_true]; rfl, rfl⟩
      · obtain ⟨hd, hne⟩ := List.mem_filter.mp hd
        have hother : (key == k) = false := beq_eq_false_iff_ne.mpr (Ne.symm (bne_iff_ne.mp hne))
        rw [hother]
        exact h.latest k d hd

theorem Consistent.step (h : Consistent lifetime t) (event : CacheEvent ε α) :
    Consistent lifetime (t.step event) := by
  by_cases hcall : ∃ key, event = .call key
  · obtain ⟨key, rfl⟩ := hcall
    exact h.call key
  · exact h.of_kept (kept_step t fun key heq => hcall ⟨key, heq⟩)

/-- **The invariant holds after every history.** -/
theorem consistent_run (lifetime : Nat) (history : List (CacheEvent ε α)) :
    Consistent lifetime (run lifetime history) := by
  induction history using List.reverseRecOn with
  | nil => exact consistent_start lifetime
  | append_singleton history event ih =>
    rw [run_concat]
    exact ih.step event

theorem Consistent.startedAt_le (h : Consistent lifetime t) (he : (key, e) ∈ t.cache.entries) :
    e.startedAt ≤ t.cache.clock := by
  obtain ⟨first, hfirst, rfl⟩ := h.latest key e he
  exact h.arrived first (of_latestStart? hfirst).1

/-! ### Calls -/

theorem Consistent.starts_iff (h : Consistent lifetime t) (key : String) :
    t.starts key = true ↔
      ∀ e, (key, e) ∈ t.cache.entries → ¬ t.cache.clock < e.startedAt + lifetime := by
  rw [starts]
  rcases Cache.enter_cases h.keyed key none with ⟨e, he, hyoung, henter⟩ | ⟨hold, henter⟩
  · rw [h.lifetime_eq] at hyoung
    rw [henter]
    refine ⟨fun hown => (nomatch hown), fun hall => (hall e he ?_).elim⟩
    omega
  · rw [henter]
    refine ⟨fun _ e he => ?_, fun _ => rfl⟩
    have hage := hold e he
    have hstarted := h.startedAt_le he
    rw [h.lifetime_eq] at hage
    omega

theorem Consistent.computations_call (h : Consistent lifetime t) (key : String) :
    (t.call key).cache.computations =
      if t.starts key then t.cache.computations ++ [none] else t.cache.computations := by
  rw [starts, Traffic.call]
  rcases Cache.enter_cases h.keyed key none with ⟨e, -, -, henter⟩ | ⟨-, henter⟩
  · rw [henter]
    rfl
  · rw [henter]
    rfl

theorem Consistent.mem_entries_call (h : Consistent lifetime t) (hstarts : t.starts key = true) :
    (key, t.nextEntry) ∈ (t.call key).cache.entries := by
  rw [starts] at hstarts
  rcases Cache.enter_cases h.keyed key none with ⟨e, -, -, henter⟩ | ⟨-, henter⟩
  · rw [henter] at hstarts
    cases hstarts
  · rw [Traffic.call, henter]
    exact List.mem_cons_self ..

/-! ### How entries go -/

/-- The entry of a key goes with an event. -/
inductive Departure (t : Traffic ε α) (key : String) (e : CacheEntry) : CacheEvent ε α → Prop where
  /-- The key is cleared. -/
  | cleared {event : CacheEvent ε α} (h : event.Clears key) : Departure t key e event
  /-- A caller of this key leaves with the failure of this very computation. -/
  | failed {caller : Nat} {c : Caller} {failure : ε} (hcaller : t.callers[caller]? = some c)
    (hkey : c.key = key) (hnumber : c.number = e.number)
    (houtcome : t.outcome? e.number = some (.error failure)) : Departure t key e (.resume caller)
  /-- A caller of this key finds the entry too old and puts its own in its place. -/
  | replaced (hstarts : t.starts key = true)
    (hold : e.startedAt + t.cache.lifetime ≤ t.cache.clock) : Departure t key e (.call key)

theorem Consistent.departure (h : Consistent lifetime t) (he : (key, e) ∈ t.cache.entries)
    (hgone : (key, e) ∉ (t.step event).cache.entries) : Departure t key e event := by
  cases event with
  | call k =>
    rcases Cache.enter_cases h.keyed k none with ⟨_, -, -, henter⟩ | ⟨hold, henter⟩
    · exact (hgone (by rw [Traffic.step, Traffic.call, henter]; exact he)).elim
    · rw [Traffic.step, Traffic.call, henter] at hgone
      -- a caller of another key leaves the entry where it is
      obtain rfl : key = k := by
        by_contra hne
        refine hgone (List.mem_cons_of_mem _ (List.mem_filter.mpr ⟨he, ?_⟩))
        exact bne_iff_ne.mpr hne
      have hage := hold e he
      have hstarted := h.startedAt_le he
      exact .replaced (by rw [starts, henter]) (by omega)
  | settle number outcome =>
    rcases t.settle_cases number outcome with hsame | ⟨-, hsame⟩
    all_goals exact (hgone (by rw [Traffic.step, hsame]; exact he)).elim
  | resume caller =>
    rcases t.resume_cases caller with ⟨-, hsame⟩ | ⟨c, outcome, hleaving, hleft⟩
    · exact (hgone (by rw [Traffic.step, hsame]; exact he)).elim
    · obtain ⟨hcaller, -, houtcome⟩ := leaving?_eq_some.mp hleaving
      rw [Traffic.step, hleft] at hgone
      cases outcome with
      | ok value => exact (hgone he).elim
      | error failure =>
        -- only the entry that stands for the caller's own computation is taken away
        have hmeant : (key == c.key && e.number == c.number) = true := by
          by_contra hother
          exact hgone (List.mem_filter.mpr ⟨he, by simpa [imp_iff_not_or] using hother⟩)
        rw [Bool.and_eq_true, beq_iff_eq, beq_iff_eq] at hmeant
        obtain ⟨hkey, hnumber⟩ := hmeant
        exact .failed hcaller hkey.symm hnumber.symm (hnumber ▸ houtcome)
  | advance milliseconds => exact (hgone he).elim
  | clear => exact .cleared trivial
  | clearKeys pattern =>
    refine .cleared ?_
    by_contra hother
    exact hgone (List.mem_filter.mpr ⟨he, by simpa [CacheEvent.Clears] using hother⟩)

/-! ### Those who have left -/

/-- **Who has left has left with the outcome of its computation**, and with a failure it has left
no entry for it behind. -/
def ReturnsSettled (t : Traffic ε α) : Prop :=
  ∀ i outcome, t.result? i = some outcome →
    ∃ c, t.callers[i]? = some c ∧ t.outcome? c.number = some outcome ∧
      ∀ failure, outcome = .error failure →
        ∀ e, (c.key, e) ∈ t.cache.entries → e.number ≠ c.number

theorem ReturnsSettled.of_kept (h : ReturnsSettled t) (hkept : Kept t t')
    (hextends : Extends t t') (hreturns : t'.returns = t.returns) : ReturnsSettled t' := by
  intro i outcome hi
  rw [result?, hreturns] at hi
  obtain ⟨c, hc, houtcome, hgone⟩ := h i outcome hi
  refine ⟨c, hextends.caller i c hc, hextends.outcome _ _ houtcome, fun failure hf e he => ?_⟩
  exact hgone failure hf e (hkept.entries_sublist.subset he)

theorem ReturnsSettled.call (h : ReturnsSettled t) (hc : Consistent lifetime t) (key : String) :
    ReturnsSettled (t.call key) := by
  intro i outcome hi
  obtain ⟨c, hcaller, houtcome, hgone⟩ := h i outcome hi
  have hextends := extends_call t key
  have hnumber := hc.numbered c (List.mem_of_getElem? hcaller)
  refine ⟨c, hextends.caller i c hcaller, hextends.outcome _ _ houtcome, fun failure hf e he => ?_⟩
  rw [Traffic.call] at he
  rcases Cache.enter_cases hc.keyed key none with ⟨_, -, -, henter⟩ | ⟨-, henter⟩
  · rw [henter] at he
    exact hgone failure hf e he
  · rw [henter] at he
    rcases List.mem_cons.mp he with heq | he
    · obtain ⟨-, rfl⟩ := Prod.mk.inj heq
      exact hnumber.ne'
    · exact hgone failure hf e (List.mem_filter.mp he).1

theorem ReturnsSettled.resume (h : ReturnsSettled t) (caller : Nat) :
    ReturnsSettled (t.resume caller) := by
  rcases t.resume_cases caller with ⟨-, hsame⟩ | ⟨c, outcome, hleaving, hleft⟩
  · rwa [hsame]
  · have hextends := extends_resume t caller
    obtain ⟨hcaller, -, houtcome⟩ := leaving?_eq_some.mp hleaving
    intro i result hi
    by_cases hplace : i = caller
    · subst hplace
      obtain rfl : outcome = result := by
        rw [hleft, result?, List.lookup_cons_self] at hi
        exact Option.some.inj hi
      refine ⟨c, hextends.caller i c hcaller, hextends.outcome _ _ houtcome, ?_⟩
      rintro failure rfl e he hnumber
      rw [hleft] at he
      simpa [hnumber] using (List.mem_filter.mp he).2
    · have hi' : t.result? i = some result := by
        rw [hleft, result?, List.lookup_cons, beq_eq_false_iff_ne.mpr hplace] at hi
        exact hi
      obtain ⟨d, hd, hsettled, hgone⟩ := h i result hi'
      have hkept : Kept t (t.step (.resume caller)) := kept_step t (by rintro _ ⟨⟩)
      refine ⟨d, hextends.caller i d hd, hextends.outcome _ _ hsettled, fun failure hf e he => ?_⟩
      exact hgone failure hf e (hkept.entries_sublist.subset he)

theorem ReturnsSettled.step (h : ReturnsSettled t) (hc : Consistent lifetime t)
    (event : CacheEvent ε α) : ReturnsSettled (t.step event) := by
  have hsame (hcall : ∀ key, event ≠ .call key) (hreturns : (t.step event).returns = t.returns) :
      ReturnsSettled (t.step event) :=
    h.of_kept (kept_step t hcall) (extends_step t event) hreturns
  cases event with
  | call key => exact h.call hc key
  | settle number outcome =>
    refine hsame (by rintro _ ⟨⟩) ?_
    rcases t.settle_cases number outcome with heq | ⟨-, heq⟩ <;> rw [Traffic.step, heq]
  | resume caller => exact h.resume caller
  | advance milliseconds => exact hsame (by rintro _ ⟨⟩) rfl
  | clear => exact hsame (by rintro _ ⟨⟩) rfl
  | clearKeys pattern => exact hsame (by rintro _ ⟨⟩) rfl

theorem returnsSettled_run (lifetime : Nat) (history : List (CacheEvent ε α)) :
    ReturnsSettled (run lifetime history) := by
  induction history using List.reverseRecOn with
  | nil => intro i outcome hi; cases hi
  | append_singleton history event ih =>
    rw [run_concat]
    exact ih.step (consistent_run lifetime history) event

end Traffic

end TableQuery
