import TableQuery.Cache.Agenda
import TableQuery.Proofs.Cache.Consistency

/-!
# Agendas are histories

Callers with an agenda act on a cache at given times, and bring computations whose outcomes are
decided beforehand. Whatever is on the agenda, the cache goes the way of some history
(`TableQuery.Traffic.Follows.together`), in which each of them comes, waits, and leaves with the
outcome that it reports. So all that holds of a cache after every history holds of a cache with an
agenda.

The two keep different things about computations – what they will give, and what they have given
by now – so they are compared by everything else (`TableQuery.Cache.outline`), and by the outcomes
that are known to both.
-/

namespace TableQuery

namespace Cache

variable {σ : Type}

/-- What there is to a cache besides the states of its computations. -/
def outline (c : Cache σ) : Cache Unit where
  lifetime := c.lifetime
  clock := c.clock
  entries := c.entries
  computations := List.replicate c.computations.length ()
  hits := c.hits
  misses := c.misses

/-- How a caller is let in does not depend on the states of computations. -/
theorem enter_outline (c : Cache σ) (key : String) (own : σ) :
    c.outline.enter key () = ((c.enter key own).1, (c.enter key own).2.outline) := by
  have hsame : c.outline.fresh? key = c.fresh? key := rfl
  cases hfresh : c.fresh? key with
  | some e =>
    rw [enter_of_fresh hfresh, enter_of_fresh (hsame.trans hfresh)]
    rfl
  | none =>
    rw [enter_of_stale hfresh, enter_of_stale (hsame.trans hfresh)]
    simp only [outline, List.length_replicate, List.length_append, List.length_singleton,
      List.replicate_succ']

theorem leave_outline (c : Cache σ) (key : String) (number : Nat) {ε α : Type}
    (result : Except ε α) : c.outline.leave key number result =
      (c.leave key number result).outline := by
  cases result <;> rfl

theorem update_outline (c : Cache σ) (number : Nat) (state : σ) :
    (c.update number state).outline = c.outline := by
  simp only [outline, update, List.length_set]

end Cache

namespace Appointment

variable {α : Type}

theorem insert_perm (a : Appointment α) (agenda : List (Appointment α)) :
    (a.insert agenda).Perm (a :: agenda) := by
  induction agenda with
  | nil => exact .refl _
  | cons b rest ih =>
    unfold insert
    split
    · exact .refl _
    · exact (ih.cons b).trans (.swap a b rest)

theorem sort_perm (agenda : List (Appointment α)) : (sort agenda).Perm agenda := by
  induction agenda with
  | nil => exact .refl _
  | cons a rest ih => exact (insert_perm a _).trans (ih.cons a)

end Appointment

namespace Traffic

variable {α : Type}

/-! ### A cache and its history -/

variable {t : Traffic Error α} {c : Cache (Landing α)}

/-- A computation that has just been started has no outcome yet. -/
theorem outcome?_of_call {key : String} {number : Nat} {outcome : Except Error α}
    (h : (t.call key).outcome? number = some outcome) : t.outcome? number = some outcome := by
  rw [outcome?_eq_some, Traffic.call] at h
  rw [outcome?_eq_some]
  cases hfresh : t.cache.fresh? key with
  | some e =>
    rw [Cache.enter_of_fresh hfresh] at h
    exact h
  | none =>
    rw [Cache.enter_of_stale hfresh] at h
    rcases lt_or_ge number t.cache.computations.length with hlt | hge
    · rwa [List.getElem?_append_left hlt] at h
    · rw [List.getElem?_append_right hge] at h
      have hnew := List.mem_of_getElem? h
      cases List.mem_singleton.mp hnew

/-- The cache has gone the way of the history. -/
structure Follows (t : Traffic Error α) (c : Cache (Landing α)) : Prop where
  outline_eq : t.cache.outline = c.outline
  outcome_eq : ∀ number outcome, t.outcome? number = some outcome →
    ∃ landing, c.computation? number = some landing ∧ landing.outcome = outcome

theorem follows_start (lifetime : Nat) :
    Follows (run lifetime []) ({ lifetime := lifetime } : Cache (Landing α)) :=
  ⟨rfl, fun _ _ h => nomatch h⟩

namespace Follows

theorem advance (h : Follows t c) (milliseconds : Nat) :
    Follows (t.step (.advance milliseconds)) (c.advance milliseconds) :=
  ⟨congrArg (Cache.advance · milliseconds) h.outline_eq, h.outcome_eq⟩

theorem clear (h : Follows t c) : Follows (t.step .clear) c.clear :=
  ⟨congrArg Cache.clear h.outline_eq, h.outcome_eq⟩

theorem clearKeys (h : Follows t c) (pattern : String) :
    Follows (t.step (.clearKeys pattern)) (c.clearKeys pattern).2 :=
  ⟨congrArg (fun c => (c.clearKeys pattern).2) h.outline_eq, h.outcome_eq⟩

theorem length_eq (h : Follows t c) :
    t.cache.computations.length = c.computations.length := by
  have hlength := congrArg (fun c => c.computations.length) h.outline_eq
  simpa only [Cache.outline, List.length_replicate] using hlength

theorem clock_eq (h : Follows t c) : t.cache.clock = c.clock :=
  congrArg Cache.clock h.outline_eq

theorem call (h : Follows t c) (key : String) (own : Landing α) :
    (t.cache.enter key none).1 = (c.enter key own).1 ∧
      Follows (t.call key) (c.enter key own).2 := by
  have henter := t.cache.enter_outline key none
  rw [h.outline_eq, c.enter_outline key own, Prod.mk.injEq] at henter
  obtain ⟨hadmission, houtline⟩ := henter
  refine ⟨hadmission.symm, houtline.symm, fun number outcome houtcome => ?_⟩
  obtain ⟨landing, hlanding, rfl⟩ := h.outcome_eq number outcome (outcome?_of_call houtcome)
  exact ⟨landing, Cache.computation?_enter hlanding key own, rfl⟩

/-- A computation may settle with the outcome it will have. -/
theorem settle (h : Follows t c) {number : Nat} {landing : Landing α}
    (hlanding : c.computation? number = some landing) :
    Follows (t.settle number landing.outcome) c ∧
      (t.settle number landing.outcome).outcome? number = some landing.outcome := by
  have hplace : number < t.cache.computations.length := by
    rw [h.length_eq]
    exact (List.getElem?_eq_some_iff.mp hlanding).1
  cases hstate : t.cache.computations[number] with
  | none =>
    have hrunning : t.cache.computation? number = some none :=
      List.getElem?_eq_some_iff.mpr ⟨hplace, hstate⟩
    simp only [Traffic.settle, hrunning]
    have hown : (t.cache.computations.set number (some landing.outcome))[number]? =
        some (some landing.outcome) := List.getElem?_set_self hplace
    refine ⟨⟨(Cache.update_outline ..).trans h.outline_eq, fun n outcome houtcome => ?_⟩,
      outcome?_eq_some.mpr hown⟩
    rw [outcome?_eq_some] at houtcome
    by_cases hn : number = n
    · subst hn
      obtain rfl := Option.some.inj (Option.some.inj (hown.symm.trans houtcome))
      exact ⟨landing, hlanding, rfl⟩
    · refine h.outcome_eq n outcome (outcome?_eq_some.mpr ?_)
      exact (List.getElem?_set_ne hn).symm.trans houtcome
  | some outcome =>
    have hsettled : t.cache.computation? number = some (some outcome) :=
      List.getElem?_eq_some_iff.mpr ⟨hplace, hstate⟩
    have houtcome : t.outcome? number = some outcome := outcome?_eq_some.mpr hsettled
    obtain ⟨landing', hlanding', rfl⟩ := h.outcome_eq number outcome houtcome
    obtain rfl := Option.some.inj (hlanding.symm.trans hlanding')
    simp only [Traffic.settle, hsettled]
    exact ⟨h, houtcome⟩

/-- A caller leaves with the outcome of its computation. -/
theorem collect (h : Follows t c) {place : Nat} {caller : Caller} {landing : Landing α}
    (hcaller : t.callers[place]? = some caller) (hwaits : t.result? place = none)
    (hlanding : c.computation? caller.number = some landing) :
    let t' := (t.step (.settle caller.number landing.outcome)).step (.resume place)
    Follows t' (c.leave caller.key caller.number landing.outcome) ∧
      t'.returns = (place, landing.outcome) :: t.returns := by
  obtain ⟨hfollows, houtcome⟩ := h.settle hlanding
  have hreturns : (t.settle caller.number landing.outcome).returns = t.returns := by
    rcases t.settle_cases caller.number landing.outcome with hsame | ⟨-, hsame⟩ <;> rw [hsame]
  have hleaving : (t.settle caller.number landing.outcome).leaving? place =
      some (caller, landing.outcome) := by
    refine leaving?_eq_some.mpr ⟨?_, ?_, houtcome⟩
    · exact (extends_settle ..).caller place caller hcaller
    · rw [result?, hreturns]
      exact hwaits
  simp only [step, resume, hleaving, hreturns, and_true]
  refine ⟨?_, fun n outcome hn => ?_⟩
  · rw [← Cache.leave_outline, hfollows.outline_eq, Cache.leave_outline]
  · rw [outcome?_eq_some, Cache.computations_leave, ← outcome?_eq_some] at hn
    rw [Cache.computation?, Cache.computations_leave]
    exact hfollows.outcome_eq n outcome hn

end Follows

/-! ### Agendas -/

/-- A caller with an appointment to collect an outcome waits for it at its place. -/
def Attends (t : Traffic Error α) (c : Cache (Landing α)) (place : Nat) : Errand α → Prop
  | .act _ => True
  | .collect key admission since outcome =>
    t.callers[place]? = some ⟨admission, key, since⟩ ∧ t.result? place = none ∧
      ∃ landing, c.computation? admission.number = some landing ∧ landing.outcome = outcome

/-- The callers with appointments wait at places of their own. -/
structure Scheduled (t : Traffic Error α) (c : Cache (Landing α)) (place : Nat → Nat)
    (agenda : List (Appointment α)) : Prop where
  nodup : (agenda.map Appointment.caller).Nodup
  attends : ∀ a ∈ agenda, Attends t c (place a.caller) a.errand
  apart : ∀ a ∈ agenda, ∀ b ∈ agenda, a.weight = 1 → b.weight = 1 →
    place a.caller = place b.caller → a.caller = b.caller

/-- The report is that of a caller who has left. -/
def Reports (t : Traffic Error α) : CallerReport α → Prop
  | .got outcome isOwn _ => ∃ (i : Nat) (c : Caller), t.callers[i]? = some c ∧ c.isOwn = isOwn ∧
      t.result? i = some outcome
  | _ => True

theorem Reports.mono {t t' : Traffic Error α} (h : Extends t t') {report : CallerReport α}
    (hreport : Reports t report) : Reports t' report := by
  cases report with
  | got outcome isOwn waited =>
    obtain ⟨i, c, hc, hown, hresult⟩ := hreport
    exact ⟨i, c, h.caller i c hc, hown, h.result i outcome hresult⟩
  | cleared => trivial
  | dropped => trivial
  | counted => trivial

section Scheduled

variable {t t' : Traffic Error α} {c d : Cache (Landing α)} {place : Nat → Nat}
  {a : Appointment α} {rest : List (Appointment α)}

theorem Scheduled.tail (h : Scheduled t c place (a :: rest)) : Scheduled t c place rest where
  nodup := (List.nodup_cons.mp h.nodup).2
  attends b hb := h.attends b (List.mem_cons_of_mem _ hb)
  apart b hb b' hb' := h.apart b (List.mem_cons_of_mem _ hb) b' (List.mem_cons_of_mem _ hb')

/-- The appointments stand as long as those who wait are still there. -/
theorem Scheduled.mono (h : Scheduled t c place rest) (hextends : Extends t t')
    (hstill : ∀ a ∈ rest, a.weight = 1 → t.result? (place a.caller) = none →
      t'.result? (place a.caller) = none)
    (hcomputations : ∀ number landing, c.computation? number = some landing →
      d.computation? number = some landing) : Scheduled t' d place rest where
  nodup := h.nodup
  attends a ha := by
    obtain ⟨time, caller, errand⟩ := a
    cases errand with
    | act action => trivial
    | collect key admission since outcome =>
      obtain ⟨hcaller, hwaits, landing, hlanding, houtcome⟩ := h.attends _ ha
      exact ⟨hextends.caller _ _ hcaller, hstill _ ha rfl hwaits, landing,
        hcomputations _ _ hlanding, houtcome⟩
  apart := h.apart

/-- Nor does it matter what happens to the entries. -/
theorem Scheduled.of_returns_eq (h : Scheduled t c place rest) (hextends : Extends t t')
    (hreturns : t'.returns = t.returns) (hcomputations : d.computations = c.computations) :
    Scheduled t' d place rest := by
  refine h.mono hextends (fun a _ _ hstill => ?_) fun number landing hlanding => ?_
  · rw [result?, hreturns]
    exact hstill
  · rw [Cache.computation?, hcomputations]
    exact hlanding

theorem Scheduled.of_perm {agenda : List (Appointment α)} (h : Scheduled t c place agenda)
    (hperm : agenda.Perm rest) : Scheduled t c place rest where
  nodup := (hperm.map _).nodup_iff.mp h.nodup
  attends a ha := h.attends a (hperm.mem_iff.mpr ha)
  apart a ha b hb := h.apart a (hperm.mem_iff.mpr ha) b (hperm.mem_iff.mpr hb)

end Scheduled

/-! ### Serving an agenda -/

section Serving

variable {t : Traffic Error α} {c d : Cache (Landing α)} {place : Nat → Nat}
  {rest : List (Appointment α)} {lifetime : Nat}

/-- The first on the agenda collects its outcome and leaves. -/
theorem Follows.collectFirst (h : Follows t c) {time caller since : Nat} {key : String}
    {admission : Admission} {outcome : Except Error α}
    (hagenda : Scheduled t c place
      (⟨time, caller, .collect key admission since outcome⟩ :: rest)) :
    let t' := (t.step (.settle admission.number outcome)).step (.resume (place caller))
    Follows t' (c.leave key admission.number outcome) ∧
      Scheduled t' (c.leave key admission.number outcome) place rest ∧
      ∀ waited, Reports t' (.got outcome admission.isOwn waited) := by
  intro t'
  obtain ⟨hcaller, hwaits, landing, hlanding, rfl⟩ := hagenda.attends _ (List.mem_cons_self ..)
  obtain ⟨hfollows, hreturns⟩ := h.collect hcaller hwaits hlanding
  have hextends : Extends t t' := (extends_step ..).trans (extends_step ..)
  refine ⟨hfollows, hagenda.tail.mono hextends (fun a ha hwait hstill => ?_) ?_, fun waited => ?_⟩
  · -- the others wait at other places
    have hother : a.caller ≠ caller := by
      rintro rfl
      exact (List.nodup_cons.mp hagenda.nodup).1 (List.mem_map.mpr ⟨a, ha, rfl⟩)
    have hplace : place a.caller ≠ place caller := fun hsame =>
      hother (hagenda.apart a (List.mem_cons_of_mem _ ha) _ (List.mem_cons_self ..) hwait rfl hsame)
    rw [result?, hreturns, List.lookup_cons, beq_eq_false_iff_ne.mpr hplace]
    exact hstill
  · intro number landing' hlanding'
    rw [Cache.computation?, Cache.computations_leave]
    exact hlanding'
  · refine ⟨place caller, _, hextends.caller _ _ hcaller, rfl, ?_⟩
    rw [result?, hreturns, List.lookup_cons_self]

/-- A caller comes, and has a computation to wait for. -/
theorem Follows.enter (h : Follows t c) (hconsistent : Consistent lifetime t)
    (hreturns : ReturnsSettled t) (key : String) (own : Landing α) :
    let entered := c.enter key own
    Follows (t.call key) entered.2 ∧
      (t.call key).callers[t.callers.length]? = some ⟨entered.1, key, c.clock⟩ ∧
      (t.call key).result? t.callers.length = none ∧
      ∃ landing, entered.2.computation? entered.1.number = some landing := by
  intro entered
  obtain ⟨hadmission, hfollows⟩ := h.call key own
  have hcaller : (t.call key).callers[t.callers.length]? = some ⟨entered.1, key, c.clock⟩ := by
    rw [← hadmission, ← h.clock_eq]
    exact List.getElem?_concat_length
  refine ⟨hfollows, hcaller, ?_, ?_⟩
  · cases hresult : t.result? t.callers.length with
    | none => exact hresult
    | some outcome =>
      obtain ⟨_, hleft, -⟩ := hreturns _ _ hresult
      exact absurd (List.getElem?_eq_some_iff.mp hleft).1 (lt_irrefl _)
  · have hnumber := (hconsistent.call key).numbered _ (List.mem_of_getElem? hcaller)
    rw [hfollows.length_eq] at hnumber
    exact ⟨_, List.getElem?_eq_getElem hnumber⟩

/-- Whoever waits at a place has come. -/
theorem Scheduled.place_lt (h : Scheduled t c place rest) {a : Appointment α} (ha : a ∈ rest)
    (hwait : a.weight = 1) : place a.caller < t.callers.length := by
  obtain ⟨time, caller, errand⟩ := a
  cases errand with
  | act action => cases hwait
  | collect key admission since outcome =>
    exact (List.getElem?_eq_some_iff.mp (h.attends _ ha).1).1

/-- A caller who has come gets an appointment, and waits at the next place. -/
theorem Scheduled.enter {time caller : Nat} {action : CallerAction α}
    (hagenda : Scheduled t c place (⟨time, caller, .act action⟩ :: rest)) {key : String}
    {own landing : Landing α}
    (hcaller : (t.call key).callers[t.callers.length]? = some ⟨(c.enter key own).1, key, c.clock⟩)
    (hwaits : (t.call key).result? t.callers.length = none)
    (hlanding : (c.enter key own).2.computation? (c.enter key own).1.number = some landing)
    (due : Nat) :
    Scheduled (t.call key) (c.enter key own).2 (Function.update place caller t.callers.length)
      (⟨due, caller, .collect key (c.enter key own).1 c.clock landing.outcome⟩ :: rest) := by
  have hrest : Scheduled (t.call key) (c.enter key own).2 place rest :=
    hagenda.tail.mono (extends_call t key) (fun _ _ _ hstill => hstill)
      (fun _ _ hstarted => Cache.computation?_enter hstarted key own)
  have hother {a : Appointment α} (ha : a ∈ rest) :
      Function.update place caller t.callers.length a.caller = place a.caller := by
    refine Function.update_of_ne ?_ _ _
    rintro rfl
    exact (List.nodup_cons.mp hagenda.nodup).1 (List.mem_map.mpr ⟨a, ha, rfl⟩)
  have hnew {a : Appointment α} (ha : a ∈ rest) (hwait : a.weight = 1) :
      place a.caller ≠ t.callers.length := (hagenda.tail.place_lt ha hwait).ne
  refine ⟨hagenda.nodup, fun a ha => ?_, fun a ha b hb hwait hwait' hsame => ?_⟩
  · rcases List.mem_cons.mp ha with rfl | ha
    · rw [Function.update_self]
      exact ⟨hcaller, hwaits, landing, hlanding, rfl⟩
    · rw [hother ha]
      exact hrest.attends a ha
  · rcases List.mem_cons.mp ha with rfl | ha <;> rcases List.mem_cons.mp hb with rfl | hb
    · rfl
    · rw [Function.update_self, hother hb] at hsame
      exact absurd hsame.symm (hnew hb hwait')
    · rw [Function.update_self, hother ha] at hsame
      exact absurd hsame (hnew ha hwait)
    · rw [hother ha, hother hb] at hsame
      exact hrest.apart a ha b hb hwait hwait' hsame

end Serving

variable {lifetime : Nat} {history : List (CacheEvent Error α)} {c d : Cache (Landing α)}
  {place : Nat → Nat} {rest : List (Appointment α)} {caller : Nat} {action : CallerAction α}

/-- A caller who asks for a result has come, and could be given an appointment for any time. -/
theorem exists_landing_enter {time : Nat} (h : Follows (run lifetime history) c)
    (hagenda : Scheduled (run lifetime history) c place (⟨time, caller, .act action⟩ :: rest))
    (key : String) (own : Landing α) :
    let entered := c.enter key own
    Follows (run lifetime (history ++ [.call key])) entered.2 ∧
      ∃ landing place', entered.2.computation? entered.1.number = some landing ∧
        ∀ due, Scheduled (run lifetime (history ++ [.call key])) entered.2 place'
          (⟨due, caller, .collect key entered.1 entered.2.clock landing.outcome⟩ :: rest) := by
  intro entered
  obtain ⟨hfollows, hcaller, hwaits, landing, hlanding⟩ :=
    h.enter (consistent_run lifetime history) (returnsSettled_run lifetime history) key own
  rw [run_concat, c.clock_enter key own]
  exact ⟨hfollows, landing, _, hlanding, hagenda.enter hcaller hwaits hlanding⟩

/-- A caller who is finished at once. -/
theorem exists_history_serve {time : Nat} {report : CallerReport α}
    (h : Follows (run lifetime history) c)
    (hagenda : Scheduled (run lifetime history) c place (⟨time, caller, .act action⟩ :: rest))
    (hserve : c.serve caller action = (.inl report, d)) :
    ∃ more place', Follows (run lifetime (history ++ more)) d ∧
      Scheduled (run lifetime (history ++ more)) d place' rest ∧
      Reports (run lifetime (history ++ more)) report := by
  cases action with
  | get key take outcome =>
    obtain ⟨hfollows, landing, place', hlanding, hfirst⟩ :=
      exists_landing_enter h hagenda key ⟨c.clock + take, outcome⟩
    rcases hentry : c.enter key ⟨c.clock + take, outcome⟩ with ⟨admission, c'⟩
    rw [hentry] at hfollows hlanding hfirst
    simp only [Cache.serve, Cache.ask, hentry, hlanding, Option.getD_some] at hserve
    split at hserve
    · obtain ⟨hleft, hscheduled, hreports⟩ := hfollows.collectFirst (hfirst landing.due)
      simp only [Cache.collect, Prod.mk.injEq, Sum.inl.injEq] at hserve
      obtain ⟨rfl, rfl⟩ := hserve
      simp only [← run_concat, List.append_assoc] at hleft hscheduled hreports
      exact ⟨_, place', hleft, hscheduled, hreports _⟩
    · cases hserve
  | clear =>
    rw [Cache.serve] at hserve
    cases hserve
    refine ⟨[.clear], place, ?_⟩
    rw [run_concat]
    exact ⟨h.clear, hagenda.tail.of_returns_eq (extends_step _ .clear) rfl rfl, trivial⟩
  | clearKeys pattern =>
    rw [Cache.serve] at hserve
    cases hserve
    refine ⟨[.clearKeys pattern], place, ?_⟩
    rw [run_concat]
    exact ⟨h.clearKeys pattern,
      hagenda.tail.of_returns_eq (extends_step _ (.clearKeys pattern)) rfl rfl, trivial⟩
  | stats =>
    rw [Cache.serve] at hserve
    cases hserve
    refine ⟨[], place, ?_⟩
    rw [List.append_nil]
    exact ⟨h, hagenda.tail, trivial⟩

/-- A caller who has to come back. -/
theorem exists_history_serve_later {time : Nat} {later : Appointment α}
    (h : Follows (run lifetime history) c)
    (hagenda : Scheduled (run lifetime history) c place (⟨time, caller, .act action⟩ :: rest))
    (hserve : c.serve caller action = (.inr later, d)) :
    ∃ more place', Follows (run lifetime (history ++ more)) d ∧
      Scheduled (run lifetime (history ++ more)) d place' (later :: rest) := by
  cases action with
  | get key take outcome =>
    obtain ⟨hfollows, landing, place', hlanding, hfirst⟩ :=
      exists_landing_enter h hagenda key ⟨c.clock + take, outcome⟩
    rcases hentry : c.enter key ⟨c.clock + take, outcome⟩ with ⟨admission, c'⟩
    rw [hentry] at hfollows hlanding hfirst
    simp only [Cache.serve, Cache.ask, hentry, hlanding, Option.getD_some] at hserve
    split at hserve
    · cases hserve
    · cases hserve
      exact ⟨[.call key], place', hfollows, hfirst landing.due⟩
  | clear => cases hserve
  | clearKeys pattern => cases hserve
  | stats => cases hserve

theorem Scheduled.advance {t : Traffic Error α} (h : Scheduled t c place rest) (time : Nat) :
    Scheduled (t.step (.advance (time - c.clock))) (c.advanceTo time) place rest :=
  h.of_returns_eq (extends_step ..) rfl rfl

/-- The cache has come to its state by going on with the history, and those who report have left
by then. -/
def Served (lifetime : Nat) (history : List (CacheEvent Error α)) (c : Cache (Landing α))
    (reports : List (CallerReport α)) : Prop :=
  ∃ more, Follows (run lifetime (history ++ more)) c ∧
    ∀ report ∈ reports, Reports (run lifetime (history ++ more)) report

theorem Served.after {first : List (CacheEvent Error α)} {reports : List (CallerReport α)}
    (h : Served lifetime (history ++ first) c reports) : Served lifetime history c reports := by
  obtain ⟨more, hfollows, hreports⟩ := h
  rw [List.append_assoc] at hfollows hreports
  exact ⟨first ++ more, hfollows, hreports⟩

theorem Served.cons {report : CallerReport α} {reports : List (CallerReport α)}
    (h : Served lifetime history c reports) (hreport : Reports (run lifetime history) report) :
    Served lifetime history c (report :: reports) := by
  obtain ⟨more, hfollows, hreports⟩ := h
  have hlater := hreport.mono (extends_run lifetime history more)
  exact ⟨more, hfollows, List.forall_mem_cons.mpr ⟨hlater, hreports⟩⟩

/-- **Serving an agenda is a history.** -/
theorem served_serveAll (agenda : List (Appointment α))
    (h : Follows (run lifetime history) c)
    (hagenda : Scheduled (run lifetime history) c place agenda) :
    Served lifetime history (c.serveAll agenda).2 ((c.serveAll agenda).1.map Prod.snd) := by
  fun_induction Cache.serveAll c agenda generalizing history place with
  | case1 c => exact ⟨[], by rwa [List.append_nil], fun _ hr => nomatch hr⟩
  | case2 c time caller key admission since outcome rest report c' hcollect reports d hrest ih =>
    obtain ⟨hleft, hnext, hreport⟩ :=
      (h.advance (time - c.clock)).collectFirst (hagenda.advance time)
    obtain ⟨rfl, rfl⟩ := Prod.mk.inj hcollect
    simp only [← run_concat] at hleft hnext hreport
    have hlast := ih hleft hnext
    rw [hrest] at hlast
    exact (hlast.cons (hreport _)).after.after.after
  | case3 c time caller action rest report c' hserve reports d hrest ih =>
    have hadvanced := h.advance (time - c.clock)
    have hscheduled := hagenda.advance time
    rw [← run_concat] at hadvanced hscheduled
    obtain ⟨more, place', hfollows, hnext, hreport⟩ :=
      exists_history_serve hadvanced hscheduled hserve
    have hlast := ih hfollows hnext
    rw [hrest] at hlast
    exact (hlast.cons hreport).after.after
  | case4 c time caller action rest later c' hserve _ ih =>
    have hadvanced := h.advance (time - c.clock)
    have hscheduled := hagenda.advance time
    rw [← run_concat] at hadvanced hscheduled
    obtain ⟨more, place', hfollows, hnext⟩ :=
      exists_history_serve_later hadvanced hscheduled hserve
    exact (ih hfollows (hnext.of_perm (Appointment.insert_perm later rest).symm)).after.after

/-- At the beginning nobody waits. -/
theorem scheduled_start (t : Traffic Error α) (c : Cache (Landing α)) (place : Nat → Nat)
    (callers : List (Nat × CallerAction α)) :
    Scheduled t c place (callers.zipIdx.map fun (after, place) =>
      Appointment.mk (c.clock + after.1) place (.act after.2)) where
  nodup := by
    have hplaces := List.zipIdx_map_snd 0 callers
    rw [List.map_map]
    exact hplaces ▸ List.nodup_range'
  attends a ha := by
    obtain ⟨b, -, rfl⟩ := List.mem_map.mp ha
    trivial
  apart a ha b hb hwait := by
    obtain ⟨b, -, rfl⟩ := List.mem_map.mp ha
    cases hwait

/-- **What callers with an agenda do to a cache is a history**, in which each of them leaves with
the outcome that it reports. -/
theorem Follows.together (h : Follows (run lifetime history) c)
    (callers : List (Nat × CallerAction α)) :
    Served lifetime history (c.together callers).2 (c.together callers).1 := by
  have hstart := (scheduled_start (run lifetime history) c id callers).of_perm
    (Appointment.sort_perm _).symm
  obtain ⟨more, hfollows, hreports⟩ := served_serveAll _ h hstart
  refine ⟨more, hfollows, fun report hreport => hreports report ?_⟩
  obtain ⟨r, hr, rfl⟩ := List.mem_map.mp hreport
  exact List.mem_map_of_mem (List.mem_mergeSort.mp hr)

end Traffic

end TableQuery
