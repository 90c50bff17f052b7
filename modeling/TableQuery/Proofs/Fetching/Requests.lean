import Mathlib.Data.List.Forall2
import TableQuery.Execution.Fetching

/-!
# The requests of a computation

The trees of `TableQuery.Fetching` say what is fetched under which answers. This file
has the two facts about them that everything about access rests on. Before them stand the
laws of calculations that may fail, which are the same for requests and without.

* **Requests are inherited.** A property of every request of a sequence is shown
  part by part: `TableQuery.Fetching.EveryFetch.bind` for a computation that goes
  on with another, `TableQuery.Fetching.everyFetch_lift_bind` for a check that comes
  first, where what follows may use that the check succeeded.
* **Nothing else is observed.** Two sources that answer alike whatever the
  computation can ask for lead to the same result and the same requests
  (`TableQuery.Fetching.EveryFetch.runOn_congr`): a computation has no way to a
  source but its requests.
-/

namespace TableQuery

/-- A sequence succeeds when its first part does and the rest does on its value. -/
theorem except_bind_eq_ok {ε α β : Type} {r : Except ε α} {f : α → Except ε β} {b : β} :
    r >>= f = .ok b ↔ ∃ a, r = .ok a ∧ f a = .ok b := by
  constructor
  · intro h
    cases r with
    | error e => exact absurd h (by simp [bind, Except.bind])
    | ok a => exact ⟨a, rfl, h⟩
  · rintro ⟨a, rfl, h⟩
    exact h

/-- A check comes first: the sequence succeeds when it passes and the rest succeeds. -/
theorem except_check_eq_ok {ε β : Type} {r : Except ε Unit} {f : Unit → Except ε β} {b : β} :
    r >>= f = .ok b ↔ r = .ok () ∧ f () = .ok b := by
  rw [except_bind_eq_ok]
  exact ⟨fun ⟨_, hr, hf⟩ => ⟨hr, hf⟩, fun ⟨hr, hf⟩ => ⟨(), hr, hf⟩⟩

/-- A sequence fails when its first part does, or the rest does on its value. -/
theorem except_bind_eq_error {ε α β : Type} {r : Except ε α} {f : α → Except ε β} {e : ε} :
    r >>= f = .error e ↔ r = .error e ∨ ∃ a, r = .ok a ∧ f a = .error e := by
  cases r with
  | error e' => simp [bind, Except.bind]
  | ok a => simp [bind, Except.bind]

/-- What a sequence comes to, whatever error it may end with. -/
theorem except_toOption_bind {ε α β : Type} (r : Except ε α) (f : α → Except ε β) :
    (r >>= f).toOption = r.toOption.bind fun a => (f a).toOption := by
  cases r <;> rfl

theorem except_toOption_eq_some {ε α : Type} {r : Except ε α} {a : α} :
    r.toOption = some a ↔ r = .ok a := by
  cases r <;> simp [Except.toOption]

/-- What stands behind a check that is made in one case only. -/
theorem except_when_eq_ok {ε β : Type} {p : Prop} [Decidable p] {r : Except ε Unit}
    {f : Unit → Except ε β} {b : β} :
    (if p then r >>= f else f ()) = .ok b ↔ (p → r = .ok ()) ∧ f () = .ok b := by
  by_cases hp : p
  · rw [if_pos hp, except_bind_eq_ok]
    constructor
    · rintro ⟨_, hr, hf⟩
      exact ⟨fun _ => hr, hf⟩
    · rintro ⟨hr, hf⟩
      exact ⟨(), hr hp, hf⟩
  · simp [hp]

/-- What stands behind a guard is reached when the guard does not hold. -/
theorem except_guard_eq_ok {ε β : Type} {p : Prop} [Decidable p] {e : ε}
    {f : Unit → Except ε β} {b : β} :
    (if p then (throw e : Except ε Unit) >>= f else f ()) = .ok b ↔ ¬p ∧ f () = .ok b := by
  rw [except_when_eq_ok]
  simp [throw, throwThe, MonadExceptOf.throw]

/-- What each step of a loop keeps, the loop keeps. -/
theorem invariant_of_foldlM {ε α β : Type} {P : β → Prop} {f : β → α → Except ε β} {xs : List α}
    (hstep : ∀ x ∈ xs, ∀ b b', P b → f b x = .ok b' → P b') {b b' : β} (hb : P b)
    (h : xs.foldlM f b = .ok b') : P b' := by
  induction xs generalizing b with
  | nil =>
    cases h
    exact hb
  | cons x rest ih =>
    rw [List.foldlM_cons] at h
    obtain ⟨b₁, hx, hrest⟩ := except_bind_eq_ok.mp h
    exact ih (fun y hy => hstep y (List.mem_cons_of_mem _ hy))
      (hstep x (List.mem_cons_self ..) b b₁ hb hx) hrest

/-- Items that are treated one by one: the sequence succeeds when each of them does. -/
theorem mapM_eq_ok_iff {ε α β : Type} {f : α → Except ε β} {xs : List α} {ys : List β} :
    xs.mapM f = .ok ys ↔ List.Forall₂ (fun x y => f x = .ok y) xs ys := by
  induction xs generalizing ys with
  | nil =>
    rw [List.mapM_nil, List.forall₂_nil_left_iff]
    exact ⟨fun h => (Except.ok.inj h).symm, fun h => congrArg Except.ok h.symm⟩
  | cons x xs ih =>
    rw [List.mapM_cons, List.forall₂_cons_left_iff]
    simp only [except_bind_eq_ok, ih]
    constructor
    · rintro ⟨y, hy, rest, hrest, h⟩
      exact ⟨y, rest, hy, hrest, (Except.ok.inj h).symm⟩
    · rintro ⟨y, rest, hy, hrest, rfl⟩
      exact ⟨y, hy, rest, hrest, rfl⟩

/-- What comes out of a sequence comes from some of its items. -/
theorem exists_of_mapM_eq_ok {ε α β : Type} {f : α → Except ε β} {xs : List α} {ys : List β}
    (h : xs.mapM f = .ok ys) : ∀ y ∈ ys, ∃ x ∈ xs, f x = .ok y := by
  rw [mapM_eq_ok_iff] at h
  induction h with
  | nil => exact fun y hy => absurd hy List.not_mem_nil
  | @cons x y xs ys hx _ ih =>
    intro z hz
    rcases List.mem_cons.mp hz with rfl | hz
    · exact ⟨x, List.mem_cons_self .., hx⟩
    · obtain ⟨x', hx', hz⟩ := ih z hz
      exact ⟨x', List.mem_cons_of_mem _ hx', hz⟩

/-- A sequence fails with the error of one of its items. -/
theorem exists_of_mapM_eq_error {ε α β : Type} {f : α → Except ε β} {xs : List α} {e : ε}
    (h : xs.mapM f = .error e) : ∃ x ∈ xs, f x = .error e := by
  induction xs with
  | nil => cases h
  | cons x xs ih =>
    rw [List.mapM_cons] at h
    rcases except_bind_eq_error.mp h with hx | ⟨y, -, h⟩
    · exact ⟨x, List.mem_cons_self .., hx⟩
    rcases except_bind_eq_error.mp h with hxs | ⟨ys, -, h⟩
    · obtain ⟨x', hx', hfail⟩ := ih hxs
      exact ⟨x', List.mem_cons_of_mem _ hx', hfail⟩
    · cases h

namespace Fetching

variable {α β : Type}

/-! ### The steps of a sequence -/

@[simp] theorem pure_eq_done (a : α) : (pure a : Fetching α) = done a := rfl

@[simp] theorem done_bind (a : α) (f : α → Fetching β) : done a >>= f = f a := rfl

@[simp] theorem failed_bind (e : Error) (f : α → Fetching β) : failed e >>= f = failed e := rfl

@[simp] theorem fetch_bind (call : FetchCall) (next : FetchAnswer → Fetching α)
    (f : α → Fetching β) :
    fetch call next >>= f = fetch call fun answer => next answer >>= f := rfl

@[simp] theorem lift_ok (a : α) : (liftM (.ok a : Except Error α) : Fetching α) = done a := rfl

@[simp] theorem lift_error (e : Error) :
    (liftM (.error e : Except Error α) : Fetching α) = failed e := rfl

theorem bind_assoc {γ : Type} (t : Fetching α) (f : α → Fetching β) (g : β → Fetching γ) :
    t >>= f >>= g = t >>= fun a => f a >>= g := by
  induction t with
  | done a => rfl
  | failed e => rfl
  | fetch call next ih => exact congrArg (fetch call) (funext ih)

/-! ### Requests are inherited -/

variable {P Q : FetchCall → Prop}

namespace EveryFetch

theorem mono (h : ∀ call, P call → Q call) {t : Fetching α} (ht : EveryFetch P t) :
    EveryFetch Q t := by
  induction ht with
  | done a => exact .done a
  | failed e => exact .failed e
  | fetch call next hcall _ ih => exact .fetch call next (h call hcall) ih

/-- What holds of every request whatever holds of the requests of a computation. -/
theorem of_forall (h : ∀ call, P call) (t : Fetching α) : EveryFetch P t := by
  induction t with
  | done a => exact .done a
  | failed e => exact .failed e
  | fetch call next ih => exact .fetch call next (h call) ih

theorem and {t : Fetching α} (hP : EveryFetch P t) (hQ : EveryFetch Q t) :
    EveryFetch (fun call => P call ∧ Q call) t := by
  induction hP with
  | done a => exact .done a
  | failed e => exact .failed e
  | fetch call next hcall _ ih =>
    cases hQ with
    | fetch _ _ hcall' hnext => exact .fetch call next ⟨hcall, hcall'⟩ fun a => ih a (hnext a)

/-- **A sequence makes the requests of its parts.** -/
theorem bind {t : Fetching α} {f : α → Fetching β} (ht : EveryFetch P t)
    (hf : ∀ a, EveryFetch P (f a)) : EveryFetch P (t >>= f) := by
  induction ht with
  | done a => exact hf a
  | failed e => exact .failed e
  | fetch call next hcall _ ih => exact .fetch call _ hcall ih

theorem attempt {t : Fetching α} (ht : EveryFetch P t) : EveryFetch P t.attempt := by
  induction ht with
  | done a => exact .done _
  | failed e => exact .done _
  | fetch call next hcall _ ih => exact .fetch call _ hcall ih

theorem request {call : FetchCall} (h : P call) : EveryFetch P (request call) := by
  refine .fetch call _ h fun answer => ?_
  rcases answer with e | rows
  · exact .failed _
  · exact .done rows

end EveryFetch

/-- A check in front of a computation makes no request, and what follows it may
use that it succeeded. -/
theorem everyFetch_lift_bind {r : Except Error α} {f : α → Fetching β}
    (h : ∀ a, r = .ok a → EveryFetch P (f a)) :
    EveryFetch P ((liftM r : Fetching α) >>= f) := by
  rcases r with e | a
  · exact .failed e
  · exact h a rfl

/-! ### Nothing else is observed -/

/-- **A source is known by its answers.** Sources that answer every possible
request alike lead to the same result, by the same requests. -/
theorem EveryFetch.runOn_congr {s₁ s₂ : FetchCall → FetchAnswer} {t : Fetching α}
    (ht : EveryFetch P t) (h : ∀ call, P call → s₁ call = s₂ call) :
    t.runOn s₁ = t.runOn s₂ := by
  induction ht with
  | done a => rfl
  | failed e => rfl
  | fetch call next hcall _ ih => rw [runOn, runOn, h call hcall, ih]

end Fetching

end TableQuery
