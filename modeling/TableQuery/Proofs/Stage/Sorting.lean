import TableQuery.Proofs.Fetching.Outcomes
import TableQuery.Proofs.Value.Ordering
import TableQuery.Stage.Builtin

/-!
# Sorting is stable

The stage `sort` puts its items in order one by one, each in front of those that it is
not less than in a list that goes down, and turns the list round in the end. What comes
out is the input in another order (`TableQuery.Builtin.perm_sortBy`), and it goes up
(`TableQuery.Builtin.pairwise_sortBy`). Items that compare equal are left as they came:
a new one is put in front of all that are already there, so it passes none of them, and
those of one class come out in the order of the input
(`TableQuery.Builtin.filter_sortBy`).

None of this needs to know what is compared, as long as the comparison is a total
preorder, which the comparison of values is. Turned round it still is one, so a
descending order keeps equal items in their order too
(`TableQuery.Builtin.run_sort_sortsInto`).
-/

namespace TableQuery

/-- The second list is the first one in the order of a comparison, with the items that
compare equal in the order in which they came. -/
structure SortsInto {α : Type} (cmp : α → α → Ordering) (items sorted : List α) : Prop where
  perm : sorted.Perm items
  ordered : sorted.Pairwise fun a b => (cmp a b).isLE = true
  stable : ∀ x, sorted.filter (fun y => cmp x y == .eq) = items.filter fun y => cmp x y == .eq

namespace Builtin

/-! ### The same items -/

section Items

variable (less : Json → Json → Bool)

theorem perm_insertDown (x : Json) (items : List Json) :
    (insertDown less x items).Perm (x :: items) := by
  induction items with
  | nil => exact .refl _
  | cons y rest ih =>
    rw [insertDown]
    split
    · exact (ih.cons y).trans (.swap x y rest)
    · exact .refl _

theorem perm_foldl_insertDown (items : List Json) : ∀ sorted : List Json,
    (items.foldl (fun sorted x => insertDown less x sorted) sorted).Perm (items ++ sorted) := by
  induction items with
  | nil => exact fun sorted => .refl _
  | cons x rest ih =>
    intro sorted
    exact (ih _).trans (((perm_insertDown less x sorted).append_left rest).trans
      List.perm_middle)

/-- **Nothing is lost** and nothing comes in. -/
theorem perm_sortBy (items : List Json) : (sortBy less items).Perm items := by
  have hfold := perm_foldl_insertDown less items []
  rw [List.append_nil] at hfold
  exact (List.reverse_perm _).trans hfold

/-! ### The order of equal items -/

variable {less} {p : Json → Bool}

/-- Among items that are not less than each other the new one comes first. -/
theorem filter_insertDown (hp : ∀ x y, p x = true → p y = true → less x y = false) (x : Json)
    (items : List Json) : (insertDown less x items).filter p = (x :: items).filter p := by
  induction items with
  | nil => rfl
  | cons y rest ih =>
    rw [insertDown]
    split
    · rename_i hless
      rw [List.filter_cons, ih]
      by_cases hx : p x = true
      · -- the items that are passed are not among them
        have hy : p y = false := Bool.eq_false_iff.mpr fun hy => by
          rw [hp x y hx hy] at hless
          cases hless
        simp [hx, hy]
      · simp [List.filter_cons, hx]
    · rfl

theorem filter_foldl_insertDown (hp : ∀ x y, p x = true → p y = true → less x y = false)
    (items : List Json) : ∀ sorted : List Json,
      (items.foldl (fun sorted x => insertDown less x sorted) sorted).filter p =
        (items.filter p).reverse ++ sorted.filter p := by
  induction items with
  | nil => exact fun sorted => rfl
  | cons x rest ih =>
    intro sorted
    rw [List.foldl_cons, ih, filter_insertDown hp]
    by_cases hx : p x = true <;> simp [hx]

/-- **Items that are not less than each other** stay in their order. -/
theorem filter_sortBy (hp : ∀ x y, p x = true → p y = true → less x y = false)
    (items : List Json) : (sortBy less items).filter p = items.filter p := by
  rw [sortBy, List.filter_reverse, filter_foldl_insertDown hp, List.filter_nil, List.append_nil,
    List.reverse_reverse]

end Items

/-! ### The order -/

section Order

variable {cmp : Json → Json → Ordering} [Std.TransCmp cmp]

/-- Inserting keeps a list that goes down. -/
theorem pairwise_insertDown (x : Json) {items : List Json}
    (h : items.Pairwise fun a b => (cmp a b).isGE = true) :
    (insertDown (fun a b => cmp a b == .lt) x items).Pairwise fun a b => (cmp a b).isGE = true := by
  induction items with
  | nil => exact List.pairwise_singleton ..
  | cons y rest ih =>
    obtain ⟨hy, hrest⟩ := List.pairwise_cons.mp h
    rw [insertDown]
    split
    · rename_i hless
      refine List.pairwise_cons.mpr ⟨fun z hz => ?_, ih hrest⟩
      rcases List.mem_cons.mp ((perm_insertDown _ x rest).mem_iff.mp hz) with rfl | hz
      · rw [Std.OrientedCmp.isGE_iff_isLE, beq_iff_eq.mp hless]
        rfl
      · exact hy z hz
    · rename_i hnot
      have hxy : (cmp x y).isGE = true := by
        revert hnot
        cases cmp x y <;> simp
      refine List.pairwise_cons.mpr ⟨fun z hz => ?_, h⟩
      rcases List.mem_cons.mp hz with rfl | hz
      · exact hxy
      · exact Std.TransCmp.isGE_trans hxy (hy z hz)

theorem pairwise_foldl_insertDown (items : List Json) : ∀ sorted : List Json,
    (sorted.Pairwise fun a b => (cmp a b).isGE = true) →
      (items.foldl (fun sorted x => insertDown (fun a b => cmp a b == .lt) x sorted)
        sorted).Pairwise fun a b => (cmp a b).isGE = true := by
  induction items with
  | nil => exact fun sorted h => h
  | cons x rest ih => exact fun sorted h => ih _ (pairwise_insertDown x h)

/-- **What is sorted goes up.** -/
theorem pairwise_sortBy (items : List Json) :
    (sortBy (fun a b => cmp a b == .lt) items).Pairwise fun a b => (cmp a b).isLE = true := by
  refine List.pairwise_reverse.mpr ((pairwise_foldl_insertDown items [] .nil).imp fun h => ?_)
  exact Std.OrientedCmp.isGE_iff_isLE.mp h

/-- **Sorting is stable** for every total preorder. -/
theorem sortsInto_sortBy (items : List Json) :
    SortsInto cmp items (sortBy (fun a b => cmp a b == .lt) items) where
  perm := perm_sortBy _ items
  ordered := pairwise_sortBy items
  stable x := by
    refine filter_sortBy (fun y z hy hz => ?_) items
    have hyz : cmp y z = .eq := Std.TransCmp.eq_trans
      (Std.OrientedCmp.eq_comm.mp (beq_iff_eq.mp hy)) (beq_iff_eq.mp hz)
    rw [hyz]
    rfl

end Order

/-! ### The stage -/

/-- The order of items by a field, or by themselves, upwards or downwards. An item without
the field counts as null. -/
def itemOrder (field : Option String) (descending : Bool) (a b : Json) : Ordering :=
  if descending then (fieldOrNull field b).compareValues (fieldOrNull field a)
  else (fieldOrNull field a).compareValues (fieldOrNull field b)

/-- The order that a word asks for: no word and `asc` ask for an ascending one and `desc`
for a descending one, in any case of letters. -/
def AsksFor (word : Option String) (descending : Bool) : Prop :=
  if descending then ∃ w ∈ word, Text.sameIgnoringCase w.toList "desc".toList = true
  else ∀ w ∈ word, Text.sameIgnoringCase w.toList "asc".toList = true

theorem readOrder_of_asksFor {word : Option String} {descending : Bool}
    (h : AsksFor word descending) : readOrder word = .ok descending := by
  have hlower : ∀ {w target : String}, Text.sameIgnoringCase w.toList target.toList = true →
      Text.lowerAscii target.toList = target.toList →
        String.ofList (Text.lowerAscii w.toList) = target := fun hsame htarget => by
    rw [Text.sameIgnoringCase_iff.mp hsame, htarget, String.ofList_toList]
  cases descending with
  | true =>
    obtain ⟨w, hw, hsame⟩ := h
    obtain rfl : word = some w := hw
    rw [readOrder, Option.map_some, hlower hsame (by decide)]
    rfl
  | false =>
    cases word with
    | none => rfl
    | some w =>
      rw [readOrder, Option.map_some, hlower (h w rfl) (by decide)]
      rfl

instance (field : Option String) (descending : Bool) :
    Std.TransCmp (itemOrder field descending) where
  eq_swap {a b} := by
    unfold itemOrder
    split <;> exact (Json.swap_compareValues _ _).symm
  isLE_trans {a b c} hab hbc := by
    have htrans : ∀ {u v w : Json}, (u.compareValues v).isLE = true →
        (v.compareValues w).isLE = true → (u.compareValues w).isLE = true :=
      Std.TransCmp.isLE_trans
    cases descending with
    | false => exact htrans hab hbc
    | true => exact htrans hbc hab

theorem sortItems_eq (field : Option String) (descending : Bool) (items : List Json) :
    sortItems field descending items =
      sortBy (fun a b => itemOrder field descending a b == .lt) items := by
  cases descending with
  | false => rfl
  | true => simp only [sortItems, itemOrder, if_true, Json.swap_compareValues]

theorem run_sort {scope : StageScope} {args : Arguments} {input : Json} {items : List Json}
    {descending : Bool} (hitems : inputItems "sort" input = .ok items)
    (horder : AsksFor (args.string? "order") descending) :
    sort.run scope args input =
      .done (.arr (sortItems (args.string? "field") descending items)) := by
  simp only [sort, readOrder_of_asksFor horder, hitems]
  rfl

/-- **Values are totally preordered, and sorting by them is stable.** -/
theorem sortsInto_run_sort :
    ((∀ a : Json, a.compareValues a = .eq) ∧
      (∀ a b : Json, b.compareValues a = (a.compareValues b).swap) ∧
      ∀ a b c : Json, (a.compareValues b).isLE = true → (b.compareValues c).isLE = true →
        (a.compareValues c).isLE = true) ∧
    ∀ (scope : StageScope) (args : Arguments) (input : Json) (items : List Json)
      (descending : Bool), inputItems "sort" input = .ok items →
        AsksFor (args.string? "order") descending →
          ∃ sorted, sort.run scope args input = .done (.arr sorted) ∧
            SortsInto (itemOrder (args.string? "field") descending) items sorted := by
  refine ⟨⟨fun _ => Std.ReflCmp.compare_self, fun a b => (Json.swap_compareValues a b).symm,
    fun _ _ _ => Std.TransCmp.isLE_trans⟩, ?_⟩
  intro scope args input items descending hitems horder
  refine ⟨sortItems (args.string? "field") descending items, run_sort hitems horder, ?_⟩
  rw [sortItems_eq]
  exact sortsInto_sortBy items

/-- Two rows of one score, a row without one and a row with a word for it. -/
theorem sortsInto_run_sort_scores :
    let row (id : Int) (score : Row) : Json := .obj (("id", .num (.int id)) :: score)
    let two : Json := .num (.float ⟨false, 2 ^ 62, by decide⟩)
    let items := [row 1 [("score", .num (.int 2))], row 2 [], row 3 [("score", two)],
      row 4 [("score", .str "high")]]
    let sorted := [row 1 [("score", .num (.int 2))], row 3 [("score", two)],
      row 4 [("score", .str "high")], row 2 []]
    let args : Arguments := [("field", .str "score"), ("order", .str "Desc")]
    inputItems "sort" (.arr items) = .ok items ∧ AsksFor (args.string? "order") true ∧
      SortsInto (itemOrder (some "score") true) items sorted := by
  intro row two items sorted args
  have horder : AsksFor (args.string? "order") true := ⟨"Desc", rfl, by decide⟩
  have hsorted : sortItems (some "score") true items = sorted := by decide +kernel
  obtain ⟨found, hrun, hfound⟩ := sortsInto_run_sort.2 ⟨{}, {}, none⟩ args (.arr items) items
    true rfl horder
  have hfield : args.string? "field" = some "score" := rfl
  rw [run_sort rfl horder, hfield, hsorted] at hrun
  rw [Json.arr.inj (Fetching.done.inj hrun)]
  exact ⟨rfl, horder, hfound⟩

end Builtin

end TableQuery
