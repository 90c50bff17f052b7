import Mathlib.Data.List.Sort
import Mathlib.Data.String.Basic
import TableQuery.Proofs.Json.Fields

/-!
# Fields in ascending order

Fields that are put in their places one after another stand in ascending order, each
name once (`TableQuery.Fields.ascending_ofList`). Fields in that order are known by what
is found under each name (`TableQuery.Fields.Ascending.eq_of_get?`), so it does not
matter in which order they were put in.
-/

namespace TableQuery

namespace Fields

variable {α : Type} {fields others : Fields α}

/-- The names go up, and so none occurs twice. -/
def Ascending (fields : Fields α) : Prop :=
  fields.Pairwise fun e f => e.1 < f.1

theorem ascending_nil : Ascending ([] : Fields α) := .nil

theorem ascending_insert (h : Ascending fields) (name : String) (value : α) :
    Ascending (insert name value fields) := by
  induction fields with
  | nil => exact List.pairwise_singleton ..
  | cons field rest ih =>
    obtain ⟨k, v⟩ := field
    obtain ⟨hk, hrest⟩ := List.pairwise_cons.mp h
    rw [insert]
    by_cases hlt : name < k
    · rw [if_pos hlt]
      refine .cons (fun e he => ?_) h
      rcases List.mem_cons.mp he with rfl | he
      · exact hlt
      · exact hlt.trans (hk e he)
    by_cases heq : name = k
    · rw [if_neg hlt, if_pos heq]
      exact .cons (fun e he => heq ▸ hk e he) hrest
    · rw [if_neg hlt, if_neg heq]
      refine .cons (fun e he => ?_) (ih hrest)
      rcases mem_insert he with rfl | he
      · exact lt_of_le_of_ne (not_lt.mp hlt) (Ne.symm heq)
      · exact hk e he

theorem ascending_ofList (entries : List (String × α)) : Ascending (ofList entries) := by
  have hfold : ∀ fields : Fields α, Ascending fields →
      Ascending (entries.foldl (fun fields e => insert e.1 e.2 fields) fields) := by
    induction entries with
    | nil => exact fun fields h => h
    | cons entry rest ih => exact fun fields h => ih _ (ascending_insert h entry.1 entry.2)
  exact hfold [] ascending_nil

namespace Ascending

/-- What stands under a name is found there. -/
theorem get?_eq_some_iff (h : Ascending fields) {name : String} {value : α} :
    fields.get? name = some value ↔ (name, value) ∈ fields := by
  induction fields with
  | nil => simp
  | cons field rest ih =>
    obtain ⟨k, v⟩ := field
    obtain ⟨hk, hrest⟩ := List.pairwise_cons.mp h
    rw [get?_cons, List.mem_cons]
    by_cases hname : name = k
    · subst hname
      have hfresh : (name, value) ∉ rest := fun hmem => lt_irrefl name (hk _ hmem)
      simp [hfresh, eq_comm]
    · rw [if_neg hname, ih hrest]
      simp [hname]

/-- **Fields are known by what is found under their names.** -/
theorem eq_of_get? (h : Ascending fields) (h' : Ascending others)
    (hget : ∀ name, fields.get? name = others.get? name) : fields = others := by
  have hirrefl : Std.Irrefl fun e f : String × α => e.1 < f.1 := ⟨fun e => lt_irrefl e.1⟩
  have hasymm : Std.Asymm fun e f : String × α => e.1 < f.1 := ⟨fun e f => lt_asymm⟩
  refine List.Pairwise.eq_of_mem_iff h h' fun e => ?_
  rw [← h.get?_eq_some_iff, ← h'.get?_eq_some_iff, hget]

end Ascending

end Fields

end TableQuery
