import Mathlib.Algebra.GroupWithZero.Nat
import Mathlib.Data.List.Forall2
import TableQuery.Proofs.Fetching.Requests
import TableQuery.Proofs.Json.Fields
import TableQuery.Proofs.Value.FirstOccurrences
import TableQuery.Stage.Builtin

/-!
# Counting groups

The stage `group_count` counts the values of a field by loose equality. It keeps the
groups that it has found in a list, and each value either adds one to the only group it
belongs to or opens a new one behind the others (`TableQuery.Builtin.countInto_cases`).
So the groups are opened by the first occurrences of the values
(`TableQuery.Builtin.map_fst_groups`), and each of them has the size of its class
(`TableQuery.Builtin.size_of_mem_groups`).

A group becomes a row of two fields: its value, under the name that the call gives, and
its size under `count`. The size is put in behind the value, so under the name `count`
the value is lost, and the rows of different groups can no longer be told apart by it
(`TableQuery.Builtin.not_run_groupCount_count`).
-/

namespace TableQuery

/-! ### What the groups of values are -/

/-- What an item holds under a field: null, if it is no object or does not have the field. -/
inductive HoldsValue (field : String) : Json → Json → Prop where
  | held {row : Row} {value : Json} : row.get? field = some value →
      HoldsValue field (.obj row) value
  | missing {row : Row} : row.get? field = none → HoldsValue field (.obj row) .null
  | noObject {item : Json} : item.fields? = none → HoldsValue field item .null

/-- The groups are the classes of loose equality among the values, in the order in which they
are first met: each with its first value and its size. -/
structure GroupsOf (values : List Json) (groups : List (Json × Nat)) : Prop where
  firsts : groups.map Prod.fst = firstOccurrences Json.looseEq values
  apart : groups.Pairwise fun g h => g.1.looseEq h.1 = false
  covering : ∀ value ∈ values, ∃ g ∈ groups, g.1.looseEq value = true
  sizes : ∀ g ∈ groups, g.2 = values.countP g.1.looseEq
  total : (groups.map Prod.snd).sum = values.length

/-- The row holds the size of the group under `count`, and its value under the field where this
is not the same name, and nothing else. -/
structure RowOfGroup (field : String) (g : Json × Nat) (row : Row) : Prop where
  size : row.get? "count" = some (.ofNat g.2)
  value : row.get? field = some g.1 ↔ field ≠ "count" ∨ g.1 = .ofNat g.2
  others : ∀ name, name ≠ field → name ≠ "count" → row.get? name = none

namespace Builtin

/-- An item holds one value, which is the one that the stage reads. -/
theorem holdsValue_iff {field : String} {item value : Json} :
    HoldsValue field item value ↔ fieldOrNull (some field) item = value := by
  have hobj : ∀ row : Row, fieldOrNull (some field) (.obj row) = (row.get? field).getD .null :=
    fun _ => rfl
  constructor
  · rintro (hget | hget | hitem)
    · rw [hobj, hget, Option.getD_some]
    · rw [hobj, hget, Option.getD_none]
    · rw [fieldOrNull, fieldOf?, hitem]
      rfl
  · rintro rfl
    cases item with
    | obj row =>
      rw [hobj]
      cases hget : Fields.get? row field with
      | none => exact .missing hget
      | some value => exact .held hget
    | null | bool | num | str | arr => exact .noObject rfl

/-- What items hold under a field is read item by item. -/
theorem forall₂_holdsValue_iff {field : String} {items values : List Json} :
    List.Forall₂ (HoldsValue field) items values ↔
      items.map (fieldOrNull (some field)) = values := by
  rw [← List.forall₂_eq_eq_eq, List.forall₂_map_left_iff]
  simp only [← holdsValue_iff]

/-! ### One value more -/

/-- **A value joins its group**, or opens a new one. -/
theorem countInto_cases (value : Json) (found : List (Json × Nat)) :
    (∃ front first n back, found = front ++ (first, n) :: back ∧ first.key = value.key ∧
      countInto value found = front ++ (first, n + 1) :: back) ∨
    ((∀ g ∈ found, g.1.key ≠ value.key) ∧ countInto value found = found ++ [(value, 1)]) := by
  induction found with
  | nil => exact .inr ⟨fun g hg => absurd hg List.not_mem_nil, rfl⟩
  | cons g rest ih =>
    obtain ⟨first, n⟩ := g
    rw [countInto]
    by_cases hkey : first.key = value.key
    · rw [if_pos (Json.looseEq_iff.mpr hkey)]
      exact .inl ⟨[], first, n, rest, rfl, hkey, rfl⟩
    rw [if_neg (mt Json.looseEq_iff.mp hkey)]
    rcases ih with ⟨front, other, m, back, hrest, hother, hcount⟩ | ⟨hnone, hcount⟩
    · exact .inl ⟨(first, n) :: front, other, m, back, by rw [hrest]; rfl, hother,
        by rw [hcount]; rfl⟩
    · exact .inr ⟨List.forall_mem_cons.mpr ⟨hkey, hnone⟩, by rw [hcount]; rfl⟩

theorem groups_concat (values : List Json) (value : Json) :
    groups (values ++ [value]) = countInto value (groups values) := by
  rw [groups, List.foldl_concat, groups]

theorem sum_countInto (value : Json) (found : List (Json × Nat)) :
    ((countInto value found).map Prod.snd).sum = (found.map Prod.snd).sum + 1 := by
  rcases countInto_cases value found with ⟨front, first, n, back, rfl, -, hcount⟩ | ⟨-, hcount⟩
  · rw [hcount]
    simp only [List.map_append, List.map_cons, List.sum_append, List.sum_cons]
    omega
  · rw [hcount]
    simp

/-! ### All values -/

/-- **Groups are opened by first occurrences.** -/
theorem map_fst_groups (values : List Json) :
    (groups values).map Prod.fst = Json.firstBy Json.key [] values := by
  induction values using List.reverseRecOn with
  | nil => rfl
  | append_singleton values value ih =>
    rw [groups_concat, Json.firstBy_concat]
    have hfound : ∀ k, k ∈ values.map Json.key ↔ ∃ g ∈ groups values, g.1.key = k := by
      intro k
      constructor
      · intro hk
        obtain ⟨v, hv, rfl⟩ := List.mem_map.mp hk
        obtain ⟨first, hfirst, hkey⟩ := Json.exists_mem_firstBy Json.key hv List.not_mem_nil
        rw [← ih] at hfirst
        obtain ⟨g, hg, rfl⟩ := List.mem_map.mp hfirst
        exact ⟨g, hg, hkey⟩
      · rintro ⟨g, hg, rfl⟩
        have hfirst := List.mem_map_of_mem (f := Prod.fst) hg
        rw [ih] at hfirst
        exact List.mem_map_of_mem (Json.mem_of_mem_firstBy hfirst)
    rcases countInto_cases value (groups values) with
      ⟨front, first, n, back, hgroups, hkey, hcount⟩ | ⟨hnone, hcount⟩
    · have hmem : value.key ∈ values.map Json.key :=
        (hfound _).mpr ⟨(first, n), by rw [hgroups]; simp, hkey⟩
      rw [if_pos hmem, List.append_nil, ← ih, hcount, hgroups]
      simp
    · have hnew : value.key ∉ values.map Json.key := fun hmem =>
        have ⟨g, hg, hkey⟩ := (hfound _).mp hmem
        hnone g hg hkey
      rw [if_neg hnew, ← ih, hcount]
      simp

theorem pairwise_groups (values : List Json) :
    (groups values).Pairwise fun g h => g.1.key ≠ h.1.key := by
  have hfirsts : (Json.firstBy Json.key [] values).Pairwise fun x y => x.key ≠ y.key :=
    Json.pairwise_firstBy values
  rw [← map_fst_groups, List.pairwise_map] at hfirsts
  exact hfirsts

theorem exists_group {values : List Json} {value : Json} (h : value ∈ values) :
    ∃ g ∈ groups values, g.1.key = value.key := by
  obtain ⟨first, hfirst, hkey⟩ := Json.exists_mem_firstBy Json.key h List.not_mem_nil
  rw [← map_fst_groups] at hfirst
  obtain ⟨g, hg, rfl⟩ := List.mem_map.mp hfirst
  exact ⟨g, hg, hkey⟩

/-- **A group has the size of its class.** -/
theorem size_of_mem_groups (values : List Json) :
    ∀ g ∈ groups values, g.2 = values.countP g.1.looseEq := by
  induction values using List.reverseRecOn with
  | nil => exact fun g hg => absurd hg List.not_mem_nil
  | append_singleton values value ih =>
    have hsame : ∀ {first : Json}, first.key = value.key →
        (values ++ [value]).countP first.looseEq = values.countP first.looseEq + 1 := fun h => by
      simp [List.countP_append, Json.looseEq_iff, h]
    have hother : ∀ {first : Json}, first.key ≠ value.key →
        (values ++ [value]).countP first.looseEq = values.countP first.looseEq := fun h => by
      simp [List.countP_append, Json.looseEq_iff, h]
    rw [groups_concat]
    rcases countInto_cases value (groups values) with
      ⟨front, first, n, back, hgroups, hkey, hcount⟩ | ⟨hnone, hcount⟩
    · -- the other groups are not the group of the value
      have hpairwise := pairwise_groups values
      rw [hgroups] at hpairwise ih
      obtain ⟨-, hback, hfront⟩ := List.pairwise_append.mp hpairwise
      rw [hcount]
      intro g hg
      rcases List.mem_append.mp hg with hg | hg
      · have hne := hfront g hg _ (List.mem_cons_self ..)
        rw [hother (hkey ▸ hne)]
        exact ih g (List.mem_append_left _ hg)
      rcases List.mem_cons.mp hg with rfl | hg
      · rw [hsame hkey]
        exact congrArg (· + 1) (ih (first, n) (by simp))
      · have hne := ((List.pairwise_cons.mp hback).1 g hg).symm
        rw [hother (hkey ▸ hne)]
        exact ih g (List.mem_append_right _ (List.mem_cons_of_mem _ hg))
    · rw [hcount]
      intro g hg
      rcases List.mem_append.mp hg with hg | hg
      · rw [hother (hnone g hg)]
        exact ih g hg
      · obtain rfl := List.mem_singleton.mp hg
        have hzero : values.countP value.looseEq = 0 := by
          refine List.countP_eq_zero.mpr fun v hv hloose => ?_
          obtain ⟨g, hg, hkey⟩ := exists_group hv
          exact hnone g hg (hkey.trans (Json.looseEq_iff.mp hloose).symm)
        rw [hsame rfl, hzero]

theorem sum_groups (values : List Json) :
    ((groups values).map Prod.snd).sum = values.length := by
  induction values using List.reverseRecOn with
  | nil => rfl
  | append_singleton values value ih =>
    rw [groups_concat, sum_countInto, ih, List.length_append, List.length_singleton]

theorem groupsOf_groups (values : List Json) : GroupsOf values (groups values) where
  firsts := by
    rw [map_fst_groups]
    exact Json.firstBy_key values
  apart := (pairwise_groups values).imp Json.looseEq_eq_false_iff.mpr
  covering value hvalue := by
    obtain ⟨g, hg, hkey⟩ := exists_group hvalue
    exact ⟨g, hg, Json.looseEq_iff.mpr hkey⟩
  sizes := size_of_mem_groups values
  total := sum_groups values

/-! ### Rows -/

/-- The row of a group. -/
def groupRow (field : String) (g : Json × Nat) : Row :=
  Fields.ofList [(field, g.1), ("count", .ofNat g.2)]

theorem rowOfGroup_groupRow (field : String) (g : Json × Nat) :
    RowOfGroup field g (groupRow field g) := by
  have hget : ∀ name, (groupRow field g).get? name =
      if name = "count" then some (.ofNat g.2) else if name = field then some g.1 else none := by
    intro name
    simp only [groupRow, Fields.ofList, List.foldl_cons, List.foldl_nil, Fields.get?_insert,
      Fields.get?_nil]
  refine ⟨by rw [hget, if_pos rfl], ?_, fun name hfield hcount => ?_⟩
  · rw [hget]
    by_cases hcount : field = "count"
    · simp [hcount, eq_comm]
    · simp [hcount]
  · rw [hget, if_neg hcount, if_neg hfield]

theorem run_groupCount_eq {scope : StageScope} {args : Arguments} {input : Json}
    {items : List Json} {field : String} (hfield : args.string? "field" = some field)
    (hitems : inputItems "group_count" input = .ok items) :
    groupCount.run scope args input =
      .done (.arr (((groups (items.map (fieldOrNull (some field)))).map
        (groupRow field)).map .obj)) := by
  simp only [groupCount, hitems, hfield, Option.getD_some, List.map_map]
  rfl

/-- **Counting groups partitions the items** by loose equality of what they hold under the field.
The rows are the classes in the order in which they are met, each with its size; the value of a
class is lost exactly if its field is named `count` and it is not the size itself. -/
theorem run_groupCount {scope : StageScope} {args : Arguments} {input : Json} {items : List Json}
    {field : String} (hfield : args.string? "field" = some field)
    (hitems : inputItems "group_count" input = .ok items) :
    ∃ values groups rows, List.Forall₂ (HoldsValue field) items values ∧
      GroupsOf values groups ∧ (groups.map Prod.snd).sum = items.length ∧
      groupCount.run scope args input = .done (.arr (rows.map .obj)) ∧
      List.Forall₂ (RowOfGroup field) groups rows := by
  let values := items.map (fieldOrNull (some field))
  have hgroups := groupsOf_groups values
  refine ⟨values, groups values, (groups values).map (groupRow field),
    forall₂_holdsValue_iff.mpr rfl, hgroups, ?_, run_groupCount_eq hfield hitems, ?_⟩
  · rw [hgroups.total, List.length_map]
  · exact List.forall₂_map_right_iff.mpr
      (List.forall₂_same.mpr fun g _ => rowOfGroup_groupRow field g)

/-- The same author twice, and two items without one. -/
theorem run_groupCount_authors :
    let args : Arguments := [("field", .str "author")]
    let ada : Json := .obj [("author", .str "Ada")]
    let items := [ada, .null, ada, .obj [("title", .str "On Lean")]]
    let row (author : Json) (n : Nat) : Row := [("author", author), ("count", .ofNat n)]
    args.string? "field" = some "author" ∧ inputItems "group_count" (.arr items) = .ok items ∧
      ∃ values groups, List.Forall₂ (HoldsValue "author") items values ∧ GroupsOf values groups ∧
        List.Forall₂ (RowOfGroup "author") groups [row (.str "Ada") 2, row .null 2] := by
  intro args ada items row
  have hfield : args.string? "field" = some "author" := rfl
  have hitems : inputItems "group_count" (.arr items) = .ok items := rfl
  obtain ⟨values, found, rows, hvalues, hgroups, -, hrun, hrows⟩ :=
    @run_groupCount ⟨{}, {}, none⟩ _ _ _ _ hfield hitems
  have hcomputed : (groups (items.map (fieldOrNull (some "author")))).map (groupRow "author") =
      [row (.str "Ada") 2, row .null 2] := by decide +kernel
  rw [run_groupCount_eq hfield hitems, hcomputed] at hrun
  have hobjects := Json.arr.inj (Fetching.done.inj hrun)
  obtain rfl := List.map_injective_iff.mpr (fun _ _ => Json.obj.inj) hobjects
  exact ⟨hfield, hitems, values, found, hvalues, hgroups, hrows⟩

/-- A row cannot hold the value and the size of its group if both are called `count`. -/
theorem not_run_groupCount_count :
    ¬∀ (scope : StageScope) (args : Arguments) (input : Json) (items : List Json)
      (field : String), args.string? "field" = some field →
        inputItems "group_count" input = .ok items →
          ∃ values groups, ∃ rows : List Row, List.Forall₂ (HoldsValue field) items values ∧
            GroupsOf values groups ∧
            groupCount.run scope args input = .done (.arr (rows.map .obj)) ∧
            List.Forall₂ (fun g row => row.get? field = some g.1 ∧
              row.get? "count" = some (Json.ofNat g.2)) groups rows := by
  intro h
  let args : Arguments := [("field", .str "count")]
  let items : List Json := [.obj [("count", .ofNat 5)], .obj [("count", .ofNat 7)]]
  have hfield : args.string? "field" = some "count" := rfl
  have hitems : inputItems "group_count" (.arr items) = .ok items := rfl
  obtain ⟨values, found, rows, hvalues, hgroups, hrun, hrows⟩ :=
    h ⟨{}, {}, none⟩ args (.arr items) items "count" hfield hitems
  have hcomputed : (groups (items.map (fieldOrNull (some "count")))).map (groupRow "count") =
      [[("count", .ofNat 1)], [("count", .ofNat 1)]] := by decide +kernel
  rw [run_groupCount_eq hfield hitems, hcomputed] at hrun
  have hobjects := Json.arr.inj (Fetching.done.inj hrun)
  obtain rfl := List.map_injective_iff.mpr (fun _ _ => Json.obj.inj) hobjects
  -- the row of the first group says that its value is the size
  obtain ⟨g, rest, ⟨hvalue, -⟩, -, rfl⟩ := List.forall₂_cons_right_iff.mp hrows
  obtain rfl := forall₂_holdsValue_iff.mp hvalues
  have hoccurrences : firstOccurrences Json.looseEq (items.map (fieldOrNull (some "count"))) =
      [.ofNat 5, .ofNat 7] := by decide +kernel
  have hfirst : g.1 = .ofNat 5 := (List.cons.inj (hgroups.firsts.trans hoccurrences)).1
  have hsize : Json.ofNat 1 = .ofNat 5 := (Option.some.inj hvalue).trans hfirst
  cases hsize

end Builtin

end TableQuery
