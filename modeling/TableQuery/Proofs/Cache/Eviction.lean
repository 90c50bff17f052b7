import TableQuery.Proofs.Cache.Consistency

/-!
# What becomes of entries

Which entries go, and with which events (`TableQuery.Traffic.eviction_exact`). A caller who
leaves with a failure removes the entry of the computation that failed and no other, so a caller
who comes late does not take away what has been started since. When all who shared a failed
computation have left, nothing of it is kept. An entry of a computation that has not failed stays
until it is cleared, or until a caller finds it too old and starts the computation anew.

A computation that fails slowly can outlive its entry. What tells it from its successors is its
number, and the numbers of computations grow with every start
(`TableQuery.Traffic.Consistent.increasing`).
-/

namespace TableQuery

namespace Traffic

variable {ε α : Type} {t : Traffic ε α} {event : CacheEvent ε α} {lifetime number caller : Nat}
  {key : String} {e : CacheEntry}

/-- A caller who goes on removes no entry but that of its own computation, and only if that has
failed. -/
theorem Consistent.failed_of_gone (h : Consistent lifetime t) (he : (key, e) ∈ t.cache.entries)
    (hgone : (key, e) ∉ (t.step (.resume caller)).cache.entries) :
    ∃ c failure, t.callers[caller]? = some c ∧ c.key = key ∧ c.number = e.number ∧
      t.outcome? e.number = some (.error failure) := by
  cases h.departure he hgone with
  | cleared hclears => exact hclears.elim
  | failed hcaller hkey hnumber houtcome => exact ⟨_, _, hcaller, hkey, hnumber, houtcome⟩

/-- The computation of a start has a greater number than those of all who came before. -/
theorem Consistent.number_lt_of_starts (h : Consistent lifetime t) {i j : Nat} {c d : Caller}
    (hc : t.callers[i]? = some c) (hd : t.callers[j]? = some d) (hij : i < j)
    (hown : d.isOwn = true) : c.number < d.number := by
  obtain ⟨hi, rfl⟩ := List.getElem?_eq_some_iff.mp hc
  obtain ⟨hj, rfl⟩ := List.getElem?_eq_some_iff.mp hd
  exact List.pairwise_iff_getElem.mp h.increasing i j hi hj hij hown

/-- An entry has been started by one of the callers. -/
theorem Consistent.exists_caller (h : Consistent lifetime t) (he : (key, e) ∈ t.cache.entries) :
    ∃ (i : Nat) (c : Caller), t.callers[i]? = some c ∧ c.key = key ∧ c.entry = e := by
  obtain ⟨first, hfirst, rfl⟩ := h.latest key e he
  obtain ⟨hmem, -, hkey⟩ := of_latestStart? hfirst
  obtain ⟨i, hi⟩ := List.mem_iff_getElem?.mp hmem
  exact ⟨i, first, hi, hkey, rfl⟩

/-- Nothing is kept of a failed computation when all who shared it have left. -/
theorem number_ne_of_all_returned (h : Consistent lifetime t) (hreturns : ReturnsSettled t)
    {failure : ε} (hfailed : t.outcome? number = some (.error failure))
    (hall : ∀ i c, t.callers[i]? = some c → c.number = number → (t.result? i).isSome = true)
    (he : (key, e) ∈ t.cache.entries) : e.number ≠ number := by
  rintro rfl
  obtain ⟨i, c, hc, rfl, rfl⟩ := h.exists_caller he
  obtain ⟨outcome, hresult⟩ := Option.isSome_iff_exists.mp (hall i c hc rfl)
  obtain ⟨d, hd, houtcome, hgone⟩ := hreturns i outcome hresult
  obtain rfl : c = d := Option.some.inj (hc.symm.trans hd)
  have hsame : outcome = .error failure := Option.some.inj (houtcome.symm.trans hfailed)
  exact hgone failure hsame c.entry he rfl

/-- **Entries go when they should, and no others.** After any history

* a caller who goes on removes an entry only if the entry stands under its key for the computation
  it shares, and that computation has failed;
* so it removes no entry of a computation that was started after someone had come for its own;
* when all who shared a failed computation have left, no entry stands for it;
* an entry of a computation that has not failed – it has a value, or is still running – goes only
  when its key is cleared, or when a caller comes who finds it as old as the lifetime and starts
  another computation. -/
theorem eviction_exact (lifetime : Nat) (history : List (CacheEvent ε α)) :
    let t := run lifetime history
    (∀ i key e, (key, e) ∈ t.cache.entries → (key, e) ∉ (t.step (.resume i)).cache.entries →
      ∃ c failure, t.callers[i]? = some c ∧ c.key = key ∧ c.number = e.number ∧
        t.outcome? e.number = some (.error failure)) ∧
    (∀ (i s j : Nat) (c sharer later : Caller), t.callers[i]? = some c →
      t.callers[s]? = some sharer → sharer.number = c.number →
      t.callers[j]? = some later → later.isOwn = true → s < j →
      ∀ key e, e.number = later.number → (key, e) ∈ t.cache.entries →
        (key, e) ∈ (t.step (.resume i)).cache.entries) ∧
    (∀ number failure, t.outcome? number = some (.error failure) →
      (∀ i c, t.callers[i]? = some c → c.number = number → (t.result? i).isSome = true) →
      ∀ key e, (key, e) ∈ t.cache.entries → e.number ≠ number) ∧
    (∀ key e event, (key, e) ∈ t.cache.entries →
      (∀ failure, t.outcome? e.number ≠ some (.error failure)) →
      (key, e) ∉ (t.step event).cache.entries →
      event.Clears key ∨
        event = .call key ∧ t.starts key = true ∧ e.startedAt + lifetime ≤ t.cache.clock) := by
  intro t
  have hconsistent : Consistent lifetime t := consistent_run lifetime history
  have hreturns : ReturnsSettled t := returnsSettled_run lifetime history
  refine ⟨fun i key e he hgone => hconsistent.failed_of_gone he hgone, ?_,
    fun number failure hfailed hall key e he =>
      number_ne_of_all_returned hconsistent hreturns hfailed hall he, ?_⟩
  · intro i s j c sharer later hc hs hsame hj hown hsj key e hnumber he
    by_contra hgone
    obtain ⟨d, -, hd, -, hgoes, -⟩ := hconsistent.failed_of_gone he hgone
    obtain rfl : c = d := Option.some.inj (hc.symm.trans hd)
    have hlt := hconsistent.number_lt_of_starts hs hj hsj hown
    omega
  · intro key e event he hfailed hgone
    cases hconsistent.departure he hgone with
    | cleared hclears => exact .inl hclears
    | failed _ _ _ houtcome => exact (hfailed _ houtcome).elim
    | replaced hstarts hold => exact .inr ⟨rfl, hstarts, hconsistent.lifetime_eq ▸ hold⟩

/-- A computation fails after its entry has been replaced. The caller who leaves with the failure
does not remove the new entry. -/
theorem eviction_exact_late_failure :
    let history : List (CacheEvent String Nat) :=
      [.call "posts", .advance 10, .call "posts", .settle 0 (.error "down")]
    let t := run 10 history
    ("posts", ⟨10, 1⟩) ∈ t.cache.entries ∧
      (t.step (.resume 0)).result? 0 = some (.error "down") ∧
      ("posts", ⟨10, 1⟩) ∈ (t.step (.resume 0)).cache.entries := by
  intro history t
  obtain ⟨-, hstays, -, -⟩ := eviction_exact 10 history
  have hthere : ("posts", ⟨10, 1⟩) ∈ t.cache.entries := List.mem_singleton.mpr rfl
  refine ⟨hthere, rfl, ?_⟩
  exact hstays 0 0 1 ⟨⟨0, true⟩, "posts", 0⟩ _ ⟨⟨1, true⟩, "posts", 10⟩ rfl rfl rfl rfl rfl
    (by decide) "posts" ⟨10, 1⟩ rfl hthere

end Traffic

end TableQuery
