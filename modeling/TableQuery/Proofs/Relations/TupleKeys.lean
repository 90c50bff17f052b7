import Mathlib.Data.List.Forall2
import TableQuery.Execution.Relations
import TableQuery.Proofs.Json.Visible

/-!
# Keys of tuples

The cells of a row under some names are compared by a single text, their keys joined by
a separator. The keys themselves say what is wanted: two tuples have the same ones
exactly where their cells are loosely equal column by column
(`TableQuery.looselyMatch_iff_cellKeys?`). The joined text says no less, as long as the
separator stands in no key of *one* of the two tuples
(`TableQuery.cellKeys?_eq_of_tupleKey?`): the number of separators in the text then
tells that it stands in no key of the other either. Only the key of a string can have
it, since it is a control character.
-/

namespace TableQuery

/-! ### Joined texts -/

namespace Text

theorem count_intercalate (c : Char) (text : List Char) (texts : List (List Char)) :
    ([c].intercalate (text :: texts)).count c =
      (text :: texts).flatten.count c + texts.length := by
  induction texts generalizing text with
  | nil => simp
  | cons next texts ih =>
    have hflatten : (text :: next :: texts).flatten.count c =
        text.count c + (next :: texts).flatten.count c := by
      rw [List.flatten_cons, List.count_append]
    rw [List.intercalate_cons_cons, List.count_append, List.count_append, ih, hflatten,
      List.length_cons, List.count_singleton_self]
    omega

/-- **Joined texts are told apart**, when they are equally many and the separator stands
in none of those on one side. -/
theorem intercalate_inj {c : Char} {xs ys : List (List Char)} (hlength : xs.length = ys.length)
    (hfree : ∀ x ∈ xs, c ∉ x) (h : [c].intercalate xs = [c].intercalate ys) : xs = ys := by
  cases xs with
  | nil => exact (List.length_eq_zero_iff.mp hlength.symm).symm
  | cons x xs =>
    cases ys with
    | nil => cases hlength
    | cons y ys =>
      -- the joints alone make up the separators of the one side, hence of the other too
      have hnone : (x :: xs).flatten.count c = 0 :=
        List.count_eq_zero.mpr fun hmem =>
          have ⟨z, hz, hc⟩ := List.mem_flatten.mp hmem
          hfree z hz hc
      have hcount := congrArg (List.count c) h
      rw [count_intercalate, count_intercalate, hnone] at hcount
      rw [List.length_cons, List.length_cons] at hlength
      have hnone' : (y :: ys).flatten.count c = 0 := by omega
      have hfree' : ∀ z ∈ y :: ys, c ∉ z := fun z hz hc =>
        List.count_eq_zero.mp hnone' (List.mem_flatten.mpr ⟨z, hz, hc⟩)
      rw [← List.splitOn_intercalate c hfree (List.cons_ne_nil x xs), h,
        List.splitOn_intercalate c hfree' (List.cons_ne_nil y ys)]

end Text

/-! ### Tuples of cells -/

/-- The row has the cell under the name, and it is not null. -/
def HasCell (row : Row) (name : String) (cell : Json) : Prop :=
  row.get? name = some cell ∧ cell.isNull = false

/-- The cells of two rows are there, are not null and are loosely equal, column by
column. -/
def LooselyMatch (row : Row) (names : List String) (other : Row) (others : List String) : Prop :=
  List.Forall₂ (fun name name' => ∃ cell cell',
    HasCell row name cell ∧ HasCell other name' cell' ∧ cell.looseEq cell' = true) names others

/-- No string among the cells of the row has the separator in it. -/
def SeparatorFree (row : Row) (names : List String) : Prop :=
  ∀ name ∈ names, ∀ text, row.get? name = some (.str text) → '\u001f' ∉ text.toList

variable {row other : Row} {name : String} {names others keys : List String}

theorem cellKeys?_cons_eq_some :
    cellKeys? row (name :: names) = some keys ↔
      ∃ cell rest, HasCell row name cell ∧ cellKeys? row names = some rest ∧
        keys = cell.key :: rest := by
  simp only [cellKeys?, Option.bind_eq_bind, Option.bind_eq_some_iff, Option.filter_eq_some_iff,
    Bool.not_eq_true', HasCell]
  constructor
  · rintro ⟨cell, hcell, rest, hrest, hkeys⟩
    exact ⟨cell, rest, hcell, hrest, (Option.some.inj hkeys).symm⟩
  · rintro ⟨cell, rest, hcell, hrest, rfl⟩
    exact ⟨cell, hcell, rest, hrest, rfl⟩

theorem length_of_cellKeys? (h : cellKeys? row names = some keys) :
    keys.length = names.length := by
  induction names generalizing keys with
  | nil => obtain rfl := Option.some.inj h; rfl
  | cons name names ih =>
    obtain ⟨cell, rest, -, hrest, rfl⟩ := cellKeys?_cons_eq_some.mp h
    rw [List.length_cons, List.length_cons, ih hrest]

/-- **Loosely equal cells have equal keys**, and no other cells do. -/
theorem looselyMatch_iff_cellKeys? :
    LooselyMatch row names other others ↔
      ∃ keys, cellKeys? row names = some keys ∧ cellKeys? other others = some keys := by
  constructor
  · intro h
    rw [LooselyMatch] at h
    induction h with
    | nil => exact ⟨[], rfl, rfl⟩
    | cons hcells _ ih =>
      obtain ⟨cell, cell', hcell, hcell', hloose⟩ := hcells
      obtain ⟨keys, hkeys, hkeys'⟩ := ih
      refine ⟨cell.key :: keys, cellKeys?_cons_eq_some.mpr ⟨cell, keys, hcell, hkeys, rfl⟩, ?_⟩
      refine cellKeys?_cons_eq_some.mpr ⟨cell', keys, hcell', hkeys', ?_⟩
      rw [beq_iff_eq.mp hloose]
  · rintro ⟨keys, h, h'⟩
    induction names generalizing others keys with
    | nil =>
      obtain rfl := Option.some.inj h
      obtain rfl := List.length_eq_zero_iff.mp (length_of_cellKeys? h').symm
      exact .nil
    | cons name names ih =>
      obtain ⟨cell, rest, hcell, hrest, rfl⟩ := cellKeys?_cons_eq_some.mp h
      cases others with
      | nil => cases Option.some.inj h'
      | cons name' others =>
        obtain ⟨cell', rest', hcell', hrest', hkeys⟩ := cellKeys?_cons_eq_some.mp h'
        obtain ⟨hkey, rfl⟩ := List.cons.inj hkeys
        exact .cons ⟨cell, cell', hcell, hcell', beq_iff_eq.mpr hkey⟩ (ih rest hrest hrest')

/-! ### Tuples as one text -/

theorem tupleKey?_eq_some {key : String} :
    tupleKey? row names = some key ↔
      ∃ keys, cellKeys? row names = some keys ∧ tupleSeparator.intercalate keys = key :=
  Option.map_eq_some_iff

theorem SeparatorFree.not_mem_key {cell : Json} (hfree : SeparatorFree row names)
    (hname : name ∈ names) (hcell : row.get? name = some cell) :
    '\u001f' ∉ cell.key.toList := by
  cases hstr : cell.str? with
  | none =>
    intro hmem
    cases List.all_eq_true.mp (Json.all_isVisible_key hstr) _ hmem
  | some text =>
    cases cell with
    | str text => exact hfree name hname text hcell
    | null | bool | num | arr | obj => cases hstr

theorem SeparatorFree.not_mem_cellKeys? (hfree : SeparatorFree row names)
    (h : cellKeys? row names = some keys) : ∀ key ∈ keys, '\u001f' ∉ key.toList := by
  induction names generalizing keys with
  | nil =>
    obtain rfl := Option.some.inj h
    exact fun key hkey => absurd hkey List.not_mem_nil
  | cons name names ih =>
    obtain ⟨cell, rest, hcell, hrest, rfl⟩ := cellKeys?_cons_eq_some.mp h
    intro key hkey
    rcases List.mem_cons.mp hkey with rfl | hkey
    · exact hfree.not_mem_key (List.mem_cons_self ..) hcell.1
    · exact ih (fun name hname => hfree name (List.mem_cons_of_mem _ hname)) hrest key hkey

/-- **One text, the same keys**: tuples of one length that are joined to the same text
have the same keys, if the separator is in no string of one of them. -/
theorem cellKeys?_eq_of_tupleKey? (hfree : SeparatorFree row names)
    (hlength : names.length = others.length) {key : String}
    (h : tupleKey? row names = some key) (h' : tupleKey? other others = some key) :
    ∃ keys, cellKeys? row names = some keys ∧ cellKeys? other others = some keys := by
  obtain ⟨keys, hkeys, rfl⟩ := tupleKey?_eq_some.mp h
  obtain ⟨keys', hkeys', htext⟩ := tupleKey?_eq_some.mp h'
  have hseparator : tupleSeparator.toList = ['\u001f'] := rfl
  have hjoined := congrArg String.toList htext.symm
  rw [String.toList_intercalate, String.toList_intercalate, hseparator] at hjoined
  have hlengths : (keys.map String.toList).length = (keys'.map String.toList).length := by
    rw [List.length_map, List.length_map, length_of_cellKeys? hkeys, length_of_cellKeys? hkeys',
      hlength]
  have hkeysfree : ∀ text ∈ keys.map String.toList, '\u001f' ∉ text := by
    intro text htext
    obtain ⟨key, hkey, rfl⟩ := List.mem_map.mp htext
    exact hfree.not_mem_cellKeys? hkeys key hkey
  have htexts := Text.intercalate_inj hlengths hkeysfree hjoined
  obtain rfl : keys = keys' :=
    List.map_injective_iff.mpr (fun _ _ htoList => String.toList_inj.mp htoList) htexts
  exact ⟨keys, hkeys, hkeys'⟩

end TableQuery
