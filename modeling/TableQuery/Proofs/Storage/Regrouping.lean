import TableQuery.Proofs.Query.Rearranging
import TableQuery.Proofs.Storage.Merging
import TableQuery.Storage.Source

/-!
# Regrouping filters

A connective takes the verdicts of its filters from left to right, and the first that
does not leave the outcome open is its own (`TableQuery.Connective.eval_filter`). An
unsupported search decides like that too, so operands may not be swapped, and the laws of
truth values say nothing here. What may be changed is the grouping: a connective inside
the same connective gives its filters up to it, also where it has none, and one over a
single filter is dropped.

`TableQuery.StorageFilter.Regrouped` is any number of such changes, anywhere in a filter.
They keep the verdict on every row, with the column and the search that are reported
(`TableQuery.StorageFilter.Regrouped.eval_eq`). Merging and collapsing are changes of this
kind (`TableQuery.StorageFilter.grouping_keeps_verdicts`), and so is, by induction on the
expression, the whole way to the filter that is pushed down. Hence a store gives one
answer, be it rows or an error, to the request with that filter and to the request with a
connective for each of the expression (`TableQuery.Store.fetch_pushed`).
-/

namespace TableQuery

/-! ### Connectives of filters -/

namespace Connective

/-- Filters under the connective. -/
def filter : Connective → List StorageFilter → StorageFilter
  | and => .and
  | or => .or

/-- The verdict that leaves the outcome to the filters behind. -/
def unit : Connective → Verdict
  | and => .holds true
  | or => .holds false

/-- A verdict, or the one behind it where it leaves the outcome open. -/
def next (c : Connective) (first second : Verdict) : Verdict :=
  if first = c.unit then second else first

/-- The first verdict that decides the outcome; where none does, it is left open. -/
def firstDecided (c : Connective) (verdicts : List Verdict) : Verdict :=
  (verdicts.find? (· ≠ c.unit)).getD c.unit

theorem andThen_eq_next (first second : Verdict) :
    first.andThen second = and.next first second := by
  rcases first with (_ | _) | _ <;> rfl

theorem orElse_eq_next (first second : Verdict) :
    first.orElse second = or.next first second := by
  rcases first with (_ | _) | _ <;> rfl

variable {row : Row} (c : Connective)

theorem firstDecided_cons (verdict : Verdict) (verdicts : List Verdict) :
    c.firstDecided (verdict :: verdicts) = c.next verdict (c.firstDecided verdicts) := by
  by_cases h : verdict = c.unit
  · rw [next, if_pos h, firstDecided, List.find?_cons_of_neg (by simp [h]), firstDecided]
  · rw [next, if_neg h, firstDecided, List.find?_cons_of_pos (by simp [h]), Option.getD_some]

theorem eval_filter_singleton (f : StorageFilter) : (c.filter [f]).eval row = f.eval row := by
  cases c with
  | and => exact StorageFilter.evalAll_singleton f
  | or => exact StorageFilter.evalAny_singleton f

theorem eval_filter_append (fs gs : List StorageFilter) :
    (c.filter (fs ++ gs)).eval row = c.next ((c.filter fs).eval row) ((c.filter gs).eval row) := by
  cases c with
  | and => exact (StorageFilter.evalAll_append fs gs).trans (andThen_eq_next _ _)
  | or => exact (StorageFilter.evalAny_append fs gs).trans (orElse_eq_next _ _)

theorem eval_filter_cons (f : StorageFilter) (fs : List StorageFilter) :
    (c.filter (f :: fs)).eval row = c.next (f.eval row) ((c.filter fs).eval row) := by
  rw [← List.singleton_append, eval_filter_append, eval_filter_singleton]

/-- **The first decision counts.** -/
theorem eval_filter (fs : List StorageFilter) :
    (c.filter fs).eval row = c.firstDecided (fs.map fun f => f.eval row) := by
  induction fs with
  | nil => cases c <;> rfl
  | cons f fs ih => rw [eval_filter_cons, ih, List.map_cons, firstDecided_cons]

/-- An unsupported search counts in front of a decision and not behind one. -/
example :
    let post : Row := [("id", .bool true)]
    let search := StorageFilter.search .contains "id" "7" true
    (StorageFilter.or [.and [], search]).eval post = .holds true ∧
      (StorageFilter.or [search, .and []]).eval post = .unsupported "id" .contains :=
  ⟨rfl, rfl⟩

end Connective

/-! ### Grouping -/

namespace StorageFilter

/-- One filter comes from the other by changes of the grouping alone, anywhere in it: a
connective over one filter is that filter, and a connective inside the same connective
gives its filters up to it. -/
inductive Regrouped : StorageFilter → StorageFilter → Prop
  | refl (f : StorageFilter) : Regrouped f f
  | symm {f g : StorageFilter} : Regrouped f g → Regrouped g f
  | trans {f g h : StorageFilter} : Regrouped f g → Regrouped g h → Regrouped f h
  | single (c : Connective) (f : StorageFilter) : Regrouped (c.filter [f]) f
  | splice (c : Connective) (before fs after : List StorageFilter) :
      Regrouped (c.filter (before ++ c.filter fs :: after)) (c.filter (before ++ fs ++ after))
  | inside (c : Connective) (before after : List StorageFilter) {f g : StorageFilter} :
      Regrouped f g → Regrouped (c.filter (before ++ f :: after)) (c.filter (before ++ g :: after))

namespace Regrouped

/-- **The verdict stays**, whichever of the three it is. -/
theorem eval_eq {f g : StorageFilter} (h : f.Regrouped g) (row : Row) :
    f.eval row = g.eval row := by
  induction h with
  | refl f => rfl
  | symm _ ih => exact ih.symm
  | trans _ _ ih ih' => exact ih.trans ih'
  | single c f => exact c.eval_filter_singleton f
  | splice c before fs after =>
    -- the verdict of the inner connective stands for those of its filters
    rw [List.append_assoc, c.eval_filter_append, c.eval_filter_append, c.eval_filter_append,
      c.eval_filter_cons]
  | inside c before after _ ih =>
    rw [c.eval_filter_append, c.eval_filter_append, c.eval_filter_cons, c.eval_filter_cons, ih]

theorem pair (c : Connective) {l l' r r' : StorageFilter} (hl : l.Regrouped l')
    (hr : r.Regrouped r') : (c.filter [l, r]).Regrouped (c.filter [l', r']) :=
  (inside c [] [r] hl).trans (inside c [l'] [] hr)

end Regrouped

end StorageFilter

/-! ### Merging and collapsing -/

namespace Connective

open StorageFilter

/-- The operands of the connective, or the filter itself. -/
def operands : Connective → StorageFilter → List StorageFilter
  | and => conjuncts
  | or => disjuncts

/-- Two filters under the connective, without the same connective right inside it. -/
def merge : Connective → StorageFilter → StorageFilter → StorageFilter
  | and => mergeAnd
  | or => mergeOr

/-- Filters under the connective; a single filter is its own. -/
def collapse : Connective → List StorageFilter → StorageFilter
  | and => conj
  | or => disj

theorem operands_cases (c : Connective) (f : StorageFilter) :
    f = c.filter (c.operands f) ∨ c.operands f = [f] := by
  cases c with
  | and =>
    cases f with
    | and fs => exact Or.inl rfl
    | eq | search | range | or => exact Or.inr rfl
  | or =>
    cases f with
    | or fs => exact Or.inl rfl
    | eq | search | range | and => exact Or.inr rfl

/-- A filter among others may be replaced by its operands. -/
theorem regrouped_operands (c : Connective) (before : List StorageFilter) (f : StorageFilter)
    (after : List StorageFilter) :
    (c.filter (before ++ f :: after)).Regrouped (c.filter (before ++ c.operands f ++ after)) := by
  rcases c.operands_cases f with hf | hf
  · have hsplice := Regrouped.splice c before (c.operands f) after
    rwa [← hf] at hsplice
  · rw [hf, List.append_assoc, List.singleton_append]
    exact .refl _

/-- **Merging is regrouping.** -/
theorem regrouped_merge (c : Connective) (l r : StorageFilter) :
    (c.filter [l, r]).Regrouped (c.merge l r) := by
  have hmerge : c.merge l r = c.filter (c.operands l ++ c.operands r) := by cases c <;> rfl
  have hl := c.regrouped_operands [] l [r]
  have hr := c.regrouped_operands (c.operands l) r []
  rw [List.append_nil, ← hmerge] at hr
  exact hl.trans hr

/-- **Collapsing is regrouping**; a list without filters is left as it is. -/
theorem regrouped_collapse (c : Connective) (fs : List StorageFilter) :
    (c.filter fs).Regrouped (c.collapse fs) := by
  match fs with
  | [f] =>
    have hcollapse : c.collapse [f] = f := by cases c <;> rfl
    rw [hcollapse]
    exact .single c f
  | [] | _ :: _ :: _ => cases c <;> exact .refl _

end Connective

namespace StorageFilter

/-- **Merging and collapsing keep the verdict** on every row, with the column and the search
of an unsupported one: it is the first verdict of a filter that decides the outcome. -/
theorem grouping_keeps_verdicts (row : Row) (l r : StorageFilter) (fs : List StorageFilter) :
    (mergeAnd l r).eval row = (and [l, r]).eval row ∧
    (mergeOr l r).eval row = (or [l, r]).eval row ∧
    (conj fs).eval row = (and fs).eval row ∧
    (disj fs).eval row = (or fs).eval row ∧
    (and fs).eval row = Connective.and.firstDecided (fs.map fun f => f.eval row) ∧
    (or fs).eval row = Connective.or.firstDecided (fs.map fun f => f.eval row) := by
  refine ⟨?mergedAnd, ?mergedOr, ?collapsedAnd, ?collapsedOr, ?and, ?or⟩
  case mergedAnd => exact ((Connective.and.regrouped_merge l r).eval_eq row).symm
  case mergedOr => exact ((Connective.or.regrouped_merge l r).eval_eq row).symm
  case collapsedAnd => exact ((Connective.and.regrouped_collapse fs).eval_eq row).symm
  case collapsedOr => exact ((Connective.or.regrouped_collapse fs).eval_eq row).symm
  case and => exact Connective.and.eval_filter fs
  case or => exact Connective.or.eval_filter fs

/-! ### Pushed filters -/

/-- The filter of an expression, with a connective over two filters for each of its own. -/
def nested? (t : Table) : Expression → Option StorageFilter
  | .and l r => do return and [← nested? t l, ← nested? t r]
  | .or l r => do return or [← nested? t l, ← nested? t r]
  | .not _ => none
  | .atom a => ofAtom? t a

theorem Regrouped.rel_merge (c : Connective) {l l' r r' : Option StorageFilter}
    (hl : Option.Rel Regrouped l l') (hr : Option.Rel Regrouped r r') :
    Option.Rel Regrouped (do return c.filter [← l, ← r]) (do return c.merge (← l') (← r')) := by
  cases hl with
  | none => exact .none
  | some hl =>
    cases hr with
    | none => exact .none
    | some hr => exact .some ((Regrouped.pair c hl hr).trans (c.regrouped_merge _ _))

/-- **Pushing down is regrouping**: an expression that has a nested filter has a pushed one,
which differs from it in the grouping alone, and the other way around. -/
theorem rel_ofExpression? (t : Table) (e : Expression) :
    Option.Rel Regrouped (nested? t e) (ofExpression? t e) := by
  induction e with
  | and l r ihl ihr => exact Regrouped.rel_merge .and ihl ihr
  | or l r ihl ihr => exact Regrouped.rel_merge .or ihl ihr
  | not e => exact .none
  | atom a =>
    rw [nested?, ofExpression?]
    cases ofAtom? t a with
    | none => exact .none
    | some f => exact .some (.refl f)

end StorageFilter

namespace Store

open StorageFilter

variable {table : String} {columns : List String} {filter filter' : Option StorageFilter}

theorem select_regrouped (h : Option.Rel Regrouped filter filter') (rows : List Row) :
    select ⟨table, columns, filter⟩ rows = select ⟨table, columns, filter'⟩ rows := by
  have hverdict (row : Row) :
      (filter.map fun f => f.eval row) = filter'.map fun f => f.eval row := by
    cases h with
    | none => rfl
    | some h => exact congrArg some (h.eval_eq row)
  induction rows with
  | nil => rfl
  | cons row rest ih => simp only [select, hverdict, ih]

/-- **A store gives one answer** to the request with the pushed filter of an expression and
to that with the nested one: the same rows, or the same error. -/
theorem fetch_pushed (store : Store) (t : Table) (columns : List String) (e : Expression) :
    store.fetch ⟨t.name, columns, nested? t e⟩ =
      store.fetch ⟨t.name, columns, ofExpression? t e⟩ := by
  simp only [fetch, select_regrouped (rel_ofExpression? t e)]

end Store

end TableQuery
