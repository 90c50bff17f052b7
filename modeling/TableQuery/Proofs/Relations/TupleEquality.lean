import TableQuery.Proofs.Relations.TupleKeys

/-!
# When tuples have one text

Tuples are told apart by the keys of their cells, joined by a separator that is not
escaped. What the joined text remembers are the pieces of the keys between separators,
and not which of them belong to one key (`TableQuery.Text.intercalate_eq_iff`). So two
tuples of one length have one text exactly if their keys fall into the same pieces.

That says the same as loose equality column by column if the tuples have one column, or
if one of them has no string with a separator in it; otherwise a separator can move
from one cell to the next.
-/

namespace TableQuery

namespace Text

/-- The parts of a list of texts that stand between separators. -/
def pieces (c : Char) (texts : List (List Char)) : List (List Char) :=
  texts.flatMap (List.splitOn c)

theorem splitOn_intercalate_eq_pieces (c : Char) {texts : List (List Char)} (h : texts ≠ []) :
    List.splitOn c ([c].intercalate texts) = pieces c texts := by
  induction texts with
  | nil => exact absurd rfl h
  | cons text rest ih =>
    cases rest with
    | nil => simp [pieces]
    | cons next rest =>
      have hsplit : ∀ behind, List.splitOn c (text ++ c :: behind) =
          List.splitOn c text ++ List.splitOn c behind := fun behind =>
        List.splitOnP_append_cons text behind (beq_self_eq_true c)
      rw [List.intercalate_cons_cons, List.append_assoc, List.singleton_append, hsplit,
        ih (List.cons_ne_nil next rest)]
      rfl

/-- **A joined text remembers the pieces**, and nothing else of texts that are equally many. -/
theorem intercalate_eq_iff (c : Char) {xs ys : List (List Char)} (hlength : xs.length = ys.length) :
    [c].intercalate xs = [c].intercalate ys ↔ pieces c xs = pieces c ys := by
  by_cases hxs : xs = []
  · subst hxs
    obtain rfl := List.length_eq_zero_iff.mp hlength.symm
    exact iff_of_true rfl rfl
  have hys : ys ≠ [] := by
    rintro rfl
    exact hxs (List.length_eq_zero_iff.mp hlength)
  rw [← splitOn_intercalate_eq_pieces c hxs, ← splitOn_intercalate_eq_pieces c hys]
  -- what is split can be joined again
  have hjoin : ∀ text : List Char, [c].intercalate (List.splitOn c text) = text :=
    fun _ => List.intercalate_splitOn c
  constructor
  · exact congrArg _
  · intro h
    rw [← hjoin ([c].intercalate xs), h, hjoin]

end Text

/-! ### Tuples -/

/-- Both rows have a tuple of cells, and the text of the tuples is the same. -/
def SameTuple (row : Row) (names : List String) (other : Row) (others : List String) : Prop :=
  ∃ key, tupleKey? row names = some key ∧ tupleKey? other others = some key

/-- Both rows have a tuple of cells, and the keys of the tuples fall into the same pieces. -/
def SamePieces (row : Row) (names : List String) (other : Row) (others : List String) : Prop :=
  ∃ keys keys', cellKeys? row names = some keys ∧ cellKeys? other others = some keys' ∧
    Text.pieces '\u001f' (keys.map String.toList) = Text.pieces '\u001f' (keys'.map String.toList)

variable {row other : Row} {names others : List String}

theorem SameTuple.symm (h : SameTuple row names other others) :
    SameTuple other others row names :=
  h.imp fun _ => And.symm

theorem LooselyMatch.sameTuple (h : LooselyMatch row names other others) :
    SameTuple row names other others := by
  obtain ⟨keys, hkeys, hkeys'⟩ := looselyMatch_iff_cellKeys?.mp h
  exact ⟨_, tupleKey?_eq_some.mpr ⟨keys, hkeys, rfl⟩, tupleKey?_eq_some.mpr ⟨keys, hkeys', rfl⟩⟩

theorem sameTuple_iff_samePieces (hlength : names.length = others.length) :
    SameTuple row names other others ↔ SamePieces row names other others := by
  have hseparator : tupleSeparator.toList = ['\u001f'] := rfl
  -- texts are equal where their characters are
  have hjoined : ∀ {keys keys' : List String}, cellKeys? row names = some keys →
      cellKeys? other others = some keys' →
        (tupleSeparator.intercalate keys = tupleSeparator.intercalate keys' ↔
          Text.pieces '\u001f' (keys.map String.toList) =
            Text.pieces '\u001f' (keys'.map String.toList)) := by
    intro keys keys' hkeys hkeys'
    have hlengths : (keys.map String.toList).length = (keys'.map String.toList).length := by
      rw [List.length_map, List.length_map, length_of_cellKeys? hkeys, length_of_cellKeys? hkeys',
        hlength]
    rw [← Text.intercalate_eq_iff _ hlengths, ← String.toList_inj, String.toList_intercalate,
      String.toList_intercalate, hseparator]
  constructor
  · rintro ⟨key, h, h'⟩
    obtain ⟨keys, hkeys, rfl⟩ := tupleKey?_eq_some.mp h
    obtain ⟨keys', hkeys', htext⟩ := tupleKey?_eq_some.mp h'
    exact ⟨keys, keys', hkeys, hkeys', (hjoined hkeys hkeys').mp htext.symm⟩
  · rintro ⟨keys, keys', hkeys, hkeys', hpieces⟩
    have htext := (hjoined hkeys hkeys').mpr hpieces
    exact ⟨_, tupleKey?_eq_some.mpr ⟨keys, hkeys, rfl⟩,
      tupleKey?_eq_some.mpr ⟨keys', hkeys', htext.symm⟩⟩

theorem LooselyMatch.symm (h : LooselyMatch row names other others) :
    LooselyMatch other others row names := by
  obtain ⟨keys, hkeys, hkeys'⟩ := looselyMatch_iff_cellKeys?.mp h
  exact looselyMatch_iff_cellKeys?.mpr ⟨keys, hkeys', hkeys⟩

/-- Without a separator in one of the tuples the text says all. -/
theorem SameTuple.looselyMatch_of_free (h : SameTuple row names other others)
    (hlength : names.length = others.length) (hfree : SeparatorFree row names) :
    LooselyMatch row names other others := by
  obtain ⟨key, hkey, hkey'⟩ := h
  exact looselyMatch_iff_cellKeys?.mpr (cellKeys?_eq_of_tupleKey? hfree hlength hkey hkey')

/-- Nothing is joined in a tuple of one cell. -/
theorem SameTuple.looselyMatch_of_single (h : SameTuple row names other others)
    (hlength : names.length = others.length) (hsingle : names.length = 1) :
    LooselyMatch row names other others := by
  obtain ⟨key, hkey, hkey'⟩ := h
  obtain ⟨keys, hkeys, rfl⟩ := tupleKey?_eq_some.mp hkey
  obtain ⟨keys', hkeys', htext⟩ := tupleKey?_eq_some.mp hkey'
  obtain ⟨k, rfl⟩ := List.length_eq_one_iff.mp ((length_of_cellKeys? hkeys).trans hsingle)
  obtain ⟨k', rfl⟩ := List.length_eq_one_iff.mp
    ((length_of_cellKeys? hkeys').trans (hlength.symm.trans hsingle))
  obtain rfl : k' = k := htext
  exact looselyMatch_iff_cellKeys?.mpr ⟨_, hkeys, hkeys'⟩

/-- **Tuples have one text** exactly if their keys fall into the same pieces, and this is loose
equality column by column for single cells and where one of the tuples is free of separators. -/
theorem sameTuple_iff (hlength : names.length = others.length) :
    (SameTuple row names other others ↔ SamePieces row names other others) ∧
      (names.length = 1 ∨ SeparatorFree row names ∨ SeparatorFree other others →
        (SameTuple row names other others ↔ LooselyMatch row names other others)) := by
  refine ⟨sameTuple_iff_samePieces hlength, fun hplain => ⟨fun h => ?_, LooselyMatch.sameTuple⟩⟩
  rcases hplain with hsingle | hfree | hfree
  · exact h.looselyMatch_of_single hlength hsingle
  · exact h.looselyMatch_of_free hlength hfree
  · exact (h.symm.looselyMatch_of_free hlength.symm hfree).symm

/-- A number and its digits match, and so do the tuples in which they stand; one of these is free
of separators. -/
theorem sameTuple_iff_names :
    let row : Row := [("code", .str "7"), ("name", .str "Ada")]
    let other : Row := [("id", .ofNat 7), ("label", .str "Ada")]
    let names := ["code", "name"]
    let others := ["id", "label"]
    names.length = others.length ∧ SeparatorFree other others ∧
      SamePieces row names other others ∧ LooselyMatch row names other others := by
  intro row other names others
  have hfree : SeparatorFree other others := by
    intro name hname text htext
    rcases List.mem_cons.mp hname with rfl | hname
    · cases htext
    · obtain rfl := List.mem_singleton.mp hname
      obtain rfl : "Ada" = text := Json.str.inj (Option.some.inj htext)
      decide
  have hlength : names.length = others.length := rfl
  have hsame : SameTuple row names other others := ⟨"7\u001fAda", by decide, by decide⟩
  exact ⟨hlength, hfree, (sameTuple_iff hlength).1.mp hsame,
    ((sameTuple_iff hlength).2 (.inr (.inr hfree))).mp hsame⟩

/-- One text does not always mean cells that are loosely equal: a separator moves from one cell to
the next. -/
theorem not_looselyMatch_of_sameTuple :
    ¬∀ (row other : Row) (names others : List String), names.length = others.length →
      1 ≤ names.length → (SameTuple row names other others ↔
        LooselyMatch row names other others) := by
  intro h
  let row : Row := [("a", .str "x\u001fy"), ("b", .str "z")]
  let other : Row := [("a", .str "x"), ("b", .str "y\u001fz")]
  have hsame : SameTuple row ["a", "b"] other ["a", "b"] := ⟨"x\u001fy\u001fz", by decide, by decide⟩
  obtain ⟨keys, hkeys, hkeys'⟩ :=
    looselyMatch_iff_cellKeys?.mp ((h row other ["a", "b"] ["a", "b"] rfl (by decide)).mp hsame)
  rw [← hkeys'] at hkeys
  revert hkeys
  decide

end TableQuery
