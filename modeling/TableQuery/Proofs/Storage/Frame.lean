import Mathlib.Data.List.Forall2
import TableQuery.Storage.Source

/-!
# What a request reads of a store

The answer to a request depends on the cells it names and on nothing else: not on
the other cells of its rows, and not on other tables. Two things could break this.
A filter is evaluated on whole stored rows, before they are cut down, and an
unsupported search ends the request. Both see only the columns of the filter
(`TableQuery.StorageFilter.eval_congr`), so rows that agree on the columns of a
request and of its filter are answered alike
(`TableQuery.Store.select_congr`).
-/

namespace TableQuery

/-- Two rows agree on some columns: each cell is missing in both or the same in both. -/
def AgreeOn (P : String → Prop) (r₁ r₂ : Row) : Prop :=
  ∀ column, P column → r₁.get? column = r₂.get? column

theorem AgreeOn.mono {P Q : String → Prop} {r₁ r₂ : Row} (h : AgreeOn P r₁ r₂)
    (hQ : ∀ column, Q column → P column) : AgreeOn Q r₁ r₂ :=
  fun column hcolumn => h column (hQ column hcolumn)

/-! ### Filters -/

namespace StorageFilter

mutual

/-- **A filter reads its columns**: rows that agree on them have one verdict. -/
theorem eval_congr {r₁ r₂ : Row} : ∀ f : StorageFilter,
    AgreeOn (· ∈ f.columns) r₁ r₂ → f.eval r₁ = f.eval r₂
  | eq column value, h => by rw [eval, eval, h column (by simp [columns])]
  | search mode column text ignoreCase, h => by
    rw [eval, eval, h column (by simp [columns])]
  | range column lower upper, h => by rw [eval, eval, h column (by simp [columns])]
  | and filters, h => by
    rw [eval, eval]
    exact evalAll_congr filters h
  | or filters, h => by
    rw [eval, eval]
    exact evalAny_congr filters h

theorem evalAll_congr {r₁ r₂ : Row} : ∀ fs : List StorageFilter,
    AgreeOn (· ∈ columnsOf fs) r₁ r₂ → evalAll r₁ fs = evalAll r₂ fs
  | [], _ => rfl
  | f :: fs, h => by
    have hf := eval_congr f (h.mono fun column hc => by simp [columnsOf, hc])
    have hfs := evalAll_congr fs (h.mono fun column hc => by simp [columnsOf, hc])
    rw [evalAll, evalAll, hf, hfs]

theorem evalAny_congr {r₁ r₂ : Row} : ∀ fs : List StorageFilter,
    AgreeOn (· ∈ columnsOf fs) r₁ r₂ → evalAny r₁ fs = evalAny r₂ fs
  | [], _ => rfl
  | f :: fs, h => by
    have hf := eval_congr f (h.mono fun column hc => by simp [columnsOf, hc])
    have hfs := evalAny_congr fs (h.mono fun column hc => by simp [columnsOf, hc])
    rw [evalAny, evalAny, hf, hfs]

end

end StorageFilter

/-! ### Requests -/

namespace FetchCall

/-- The filter of a request reads none but the requested columns. -/
def FilterCovered (call : FetchCall) : Prop :=
  ∀ f, call.filter = some f → ∀ column ∈ f.columns, column ∈ call.columns

end FetchCall

namespace Store

theorem projectRow_congr {columns : List String} {r₁ r₂ : Row}
    (h : AgreeOn (· ∈ columns) r₁ r₂) : projectRow columns r₁ = projectRow columns r₂ := by
  have hcells : columns.filterMap (fun c => (r₁.get? c).map fun cell => (c, cell)) =
      columns.filterMap (fun c => (r₂.get? c).map fun cell => (c, cell)) :=
    List.filterMap_congr fun c hc => by rw [h c hc]
  rw [projectRow, projectRow, hcells]

/-- **A request reads its columns**: on lists of rows that agree on them, row by row,
it has one answer. -/
theorem select_congr {call : FetchCall} (hcall : call.FilterCovered) {rows₁ rows₂ : List Row}
    (h : List.Forall₂ (AgreeOn (· ∈ call.columns)) rows₁ rows₂) :
    select call rows₁ = select call rows₂ := by
  induction h with
  | nil => rfl
  | @cons r₁ r₂ rest₁ rest₂ hrow _ ih =>
    have hverdict : (call.filter.map fun f => f.eval r₁) = call.filter.map fun f => f.eval r₂ := by
      cases hf : call.filter with
      | none => rfl
      | some f =>
        exact congrArg some (StorageFilter.eval_congr f (hrow.mono fun c hc => hcall f hf c hc))
    rw [select, select, hverdict, projectRow_congr hrow, ih]

end Store

end TableQuery
