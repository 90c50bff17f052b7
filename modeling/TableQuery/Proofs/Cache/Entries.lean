import Mathlib.Data.List.Sort
import TableQuery.Cache.Basic

/-!
# What callers find

A caller who enters a cache finds an entry of its key that is young enough, or none
(`TableQuery.Cache.enter_cases`). In the first case nothing but the count of hits changes; in the
second there is one more computation, and one entry for it in place of those of its key. That no
entry is overlooked rests on there being one entry for a key at most
(`TableQuery.Cache.Keyed`).
-/

namespace TableQuery

namespace Cache

variable {σ : Type} {c : Cache σ} {key : String}

/-- No two entries have one key. -/
def Keyed (c : Cache σ) : Prop :=
  (c.entries.map Prod.fst).Nodup

theorem mem_of_lookup {entries : List (String × CacheEntry)} {e : CacheEntry}
    (h : entries.lookup key = some e) : (key, e) ∈ entries := by
  obtain ⟨before, after, rfl, -⟩ := List.lookup_eq_some_iff.mp h
  exact List.mem_append_right _ (List.mem_cons_self ..)

theorem lookup_of_mem {entries : List (String × CacheEntry)} {e : CacheEntry}
    (h : (entries.map Prod.fst).Nodup) (he : (key, e) ∈ entries) :
    entries.lookup key = some e := by
  induction entries with
  | nil => cases he
  | cons first rest ih =>
    obtain ⟨k, d⟩ := first
    rw [List.map_cons, List.nodup_cons] at h
    rcases List.mem_cons.mp he with heq | hrest
    · obtain ⟨rfl, rfl⟩ := Prod.mk.inj heq
      exact List.lookup_cons_self
    · have hkey : key ∈ rest.map Prod.fst := List.mem_map.mpr ⟨(key, e), hrest, rfl⟩
      have hne : (key == k) = false := beq_eq_false_iff_ne.mpr fun heq => h.1 (heq ▸ hkey)
      rw [List.lookup_cons, hne]
      exact ih h.2 hrest

theorem of_fresh? {e : CacheEntry} (h : c.fresh? key = some e) :
    (key, e) ∈ c.entries ∧ c.clock - e.startedAt < c.lifetime := by
  obtain ⟨hlookup, hyoung⟩ := Option.filter_eq_some_iff.mp h
  exact ⟨mem_of_lookup hlookup, of_decide_eq_true hyoung⟩

theorem enter_of_fresh {e : CacheEntry} (h : c.fresh? key = some e) (own : σ) :
    c.enter key own = (⟨e.number, false⟩, { c with hits := c.hits + 1 }) := by
  simp only [enter, h]

theorem enter_of_stale (h : c.fresh? key = none) (own : σ) :
    c.enter key own = (⟨c.computations.length, true⟩,
      { c with
        entries := (key, ⟨c.clock, c.computations.length⟩) :: c.entries.filter fun e => e.1 != key
        computations := c.computations ++ [own]
        misses := c.misses + 1 }) := by
  simp only [enter, h]

/-- A computation that was started is not lost. -/
theorem computation?_enter {c : Cache σ} {number : Nat} {state : σ}
    (h : c.computation? number = some state) (key : String) (own : σ) :
    (c.enter key own).2.computation? number = some state := by
  cases hfresh : c.fresh? key with
  | some e =>
    rw [enter_of_fresh hfresh]
    exact h
  | none =>
    rw [enter_of_stale hfresh]
    exact (List.getElem?_append_left (List.getElem?_eq_some_iff.mp h).1).trans h

theorem clock_enter (c : Cache σ) (key : String) (own : σ) :
    (c.enter key own).2.clock = c.clock := by
  cases hfresh : c.fresh? key with
  | some e => rw [enter_of_fresh hfresh]
  | none => rw [enter_of_stale hfresh]

theorem computations_leave (c : Cache σ) (key : String) (number : Nat) {ε α : Type}
    (result : Except ε α) : (c.leave key number result).computations = c.computations := by
  cases result <;> rfl

/-- **What a caller finds.** Either an entry of its key is young enough, and the caller shares
its computation; or none is, and the caller starts a computation with an entry of its own. -/
theorem enter_cases (h : c.Keyed) (key : String) (own : σ) :
    (∃ e, (key, e) ∈ c.entries ∧ c.clock - e.startedAt < c.lifetime ∧
      c.enter key own = (⟨e.number, false⟩, { c with hits := c.hits + 1 })) ∨
    ((∀ e, (key, e) ∈ c.entries → c.lifetime ≤ c.clock - e.startedAt) ∧
      c.enter key own = (⟨c.computations.length, true⟩,
        { c with
          entries := (key, ⟨c.clock, c.computations.length⟩) ::
            c.entries.filter fun e => e.1 != key
          computations := c.computations ++ [own]
          misses := c.misses + 1 })) := by
  cases hfresh : c.fresh? key with
  | some e =>
    obtain ⟨he, hyoung⟩ := of_fresh? hfresh
    exact .inl ⟨e, he, hyoung, enter_of_fresh hfresh own⟩
  | none =>
    refine .inr ⟨fun e he => ?_, enter_of_stale hfresh own⟩
    have hold := Option.filter_eq_none_iff.mp hfresh e (lookup_of_mem h he)
    simpa [isFresh] using hold

end Cache

end TableQuery
