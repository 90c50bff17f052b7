import TableQuery.Proofs.Grammar.Literals
import TableQuery.Proofs.Schema.Built

/-!
# Atoms read back

A printed atom is three or four words, of which the last one is a literal in parentheses
or the name of a table. Reading takes them one by one, and the atom comes back
(`TableQuery.Grammar.readAtom_render`) provided that its tables are in the catalog and
that names are made of name characters, which in a catalog that was built every name of
a table is (`TableQuery.Catalog.Built.isName`).
-/

namespace TableQuery

open Grammar Text

/-! ### Tables -/

theorem isNameChar_of_isAlpha {c : Char} (h : (c.isAlpha || c == '_') = true) :
    isNameChar c = true := by
  simp only [isNameChar, Char.isAlphanum, Bool.or_eq_true] at h ⊢
  exact h.imp_left Or.inl

theorem isName_of_checkName {name : String} (h : checkName name = .ok ()) : IsName name := by
  rw [checkName] at h
  refine isName_iff.mpr ?_
  split at h
  · cases h
  · rename_i c rest hname
    rw [hname]
    refine ⟨List.cons_ne_nil _ _, ?_⟩
    split at h
    · cases h
    · -- both checks have passed, that of the first character and that of the others
      rename_i hfirst
      split at h
      · cases h
      · rename_i hrest
        simp only [Bool.not_eq_true', Bool.not_eq_false] at hfirst hrest
        intro d hd
        rcases List.mem_cons.mp hd with rfl | hd
        · exact isNameChar_of_isAlpha hfirst
        · exact List.all_eq_true.mp hrest d hd

/-- The tables of a catalog that was built have proper names. -/
theorem Catalog.Built.isName {catalog : Catalog} (hc : catalog.Built) {table : String}
    (h : catalog.hasTable table = true) : IsName table := by
  obtain ⟨t, ht⟩ := Option.isSome_iff_exists.mp h
  obtain ⟨hmem, rfl⟩ := Catalog.mem_tables_of_table? ht
  exact isName_of_checkName (hc.checkName t hmem)

namespace Grammar

theorem checkTable_of_hasTable {catalog : Catalog} {table : String}
    (h : catalog.hasTable table = true) : checkTable catalog table.toList = .ok () := by
  rw [checkTable, String.ofList_toList, if_pos h]

/-! ### Columns -/

theorem splitOn_append {sep : Char} {text : List Char} (rest : List Char)
    (h : ∀ c ∈ text, c ≠ sep) :
    splitOn sep (text ++ rest) = (splitOn sep rest).growAll text := by
  induction text with
  | nil => rfl
  | cons c cs ih =>
    have hc : (c == sep) = false := by simpa using h c (List.mem_cons_self ..)
    rw [List.cons_append, splitOn, hc, ih fun d hd => h d (List.mem_cons_of_mem _ hd)]
    rfl

/-- Joined texts come apart again at the separators. -/
theorem splitOn_joinTexts {sep : Char} {ts : List (List Char)} (hne : ts ≠ [])
    (h : ∀ t ∈ ts, ∀ c ∈ t, c ≠ sep) : (splitOn sep (joinTexts [sep] ts)).toList = ts := by
  induction ts with
  | nil => exact absurd rfl hne
  | cons t ts ih =>
    have ht := h t (List.mem_cons_self ..)
    cases ts with
    | nil =>
      have hpass := splitOn_append [] ht
      rw [List.append_nil] at hpass
      rw [joinTexts, hpass]
      simp [splitOn, Pieces.growAll, Pieces.toList]
    | cons u ts =>
      have hrest := ih (List.cons_ne_nil _ _) fun v hv => h v (List.mem_cons_of_mem _ hv)
      have hsep : (sep == sep) = true := beq_self_eq_true _
      rw [joinTexts_cons_cons, List.append_assoc, splitOn_append _ ht, List.singleton_append,
        splitOn, hsep, if_pos rfl, Pieces.growAll, Pieces.cut, Pieces.toList, List.append_nil]
      exact congrArg _ hrest

theorem splitOn_joinNames {names : List String} (hne : names ≠ [])
    (h : ∀ name ∈ names, IsName name) :
    (splitOn ',' (joinNames names)).toList = names.map String.toList := by
  refine splitOn_joinTexts (by simpa using hne) fun t ht c hc => ?_
  obtain ⟨name, hname, rfl⟩ := List.mem_map.mp ht
  exact ne_of_isNameChar ((isName_iff.mp (h name hname)).2 c hc) rfl

/-- The characters of a list of names. -/
theorem of_mem_joinNames {names : List String} (h : ∀ name ∈ names, IsName name) {c : Char}
    (hc : c ∈ joinNames names) : isNameChar c = true ∨ c = ',' := by
  rw [joinNames] at hc
  induction names with
  | nil => cases hc
  | cons name names ih =>
    have hname : ∀ c ∈ name.toList, isNameChar c = true :=
      (isName_iff.mp (h name (List.mem_cons_self ..))).2
    cases names with
    | nil => exact Or.inl (hname c hc)
    | cons next names =>
      rw [List.map_cons, List.map_cons, joinTexts_cons_cons] at hc
      rcases List.mem_append.mp hc with hc | hc
      · rcases List.mem_append.mp hc with hc | hc
        · exact Or.inl (hname c hc)
        · exact Or.inr (List.mem_singleton.mp hc)
      · exact ih (fun n hn => h n (List.mem_cons_of_mem _ hn)) hc

theorem all_isName_map {names : List String} (h : ∀ name ∈ names, IsName name) :
    (names.map String.toList).all isName = true := by
  refine List.all_eq_true.mpr fun t ht => ?_
  obtain ⟨name, hname, rfl⟩ := List.mem_map.mp ht
  exact h name hname

theorem map_ofList_map_toList (names : List String) :
    (names.map String.toList).map String.ofList = names := by
  simp [List.map_map, Function.comp_def]

/-- The written columns of an atom. -/
def renderColumns (columns : Option (List String)) : List Char :=
  (columns.map fun names => ':' :: joinNames names).getD []

/-- **The columns of an atom read back.** -/
theorem readColumns_render {columns : Option (List String)}
    (h : ∀ names ∈ columns, names ≠ [] ∧ ∀ name ∈ names, IsName name) (rest : List Char) :
    readColumns (renderColumns columns ++ ' ' :: rest) = .ok (columns, ' ' :: rest) := by
  cases columns with
  | none => rfl
  | some names =>
    obtain ⟨hne, hnames⟩ := h names rfl
    -- the columns go on up to the blank in front of what follows them
    have hgoes : ∀ c ∈ joinNames names, (!(isBlank c || c == '(')) = true := fun c hc => by
      rcases of_mem_joinNames hnames hc with hc | rfl
      · simp [isBlank_of_isNameChar hc, ne_of_isNameChar hc (d := '(') rfl]
      · rfl
    have htake : (joinNames names ++ ' ' :: rest).takeWhile
        (fun c => !(isBlank c || c == '(')) = joinNames names := by
      rw [List.takeWhile_append_of_pos hgoes, List.takeWhile_cons_of_neg (by decide),
        List.append_nil]
    have hdrop : (joinNames names ++ ' ' :: rest).dropWhile
        (fun c => !(isBlank c || c == '(')) = ' ' :: rest := by
      rw [List.dropWhile_append_of_pos hgoes, List.dropWhile_cons_of_neg (by decide)]
    show readColumns (':' :: joinNames names ++ ' ' :: rest) = _
    rw [List.cons_append, readColumns]
    simp only [htake, hdrop, splitOn_joinNames hne hnames, all_isName_map hnames, if_true,
      map_ofList_map_toList]

/-! ### The parts of an atom -/

theorem word_where : Word "Where".toList :=
  .of_isNameChar (by decide) (by decide)

/-- What follows the first word of an atom. -/
theorem stripKeyword_where {rest : List (List Char)} (hne : rest ≠ [])
    (hsolid : StartsSolid (unwords rest)) :
    stripKeyword "WHERE" ("Where".toList ++ spaced rest) = some (unwords rest) := by
  rw [stripKeyword_append (by decide) word_where (endsWord_spaced rest), if_pos (by decide),
    spaced_of_ne_nil hne, trimStart_cons_of_isBlank rfl, trimStart_of_startsSolid hsolid]

theorem startsSolid_name {name : String} (h : IsName name) : StartsSolid name.toList :=
  startsSolid_of_mem (isName_iff.mp h).1 fun c hc =>
    isBlank_of_isNameChar ((isName_iff.mp h).2 c hc)

theorem endsSolid_name {name : String} (h : IsName name) : EndsSolid name.toList :=
  endsSolid_of_mem (isName_iff.mp h).1 fun c hc =>
    isBlank_of_isNameChar ((isName_iff.mp h).2 c hc)

theorem endsName_renderColumns (columns : Option (List String)) (rest : List Char) :
    EndsName (renderColumns columns ++ ' ' :: rest) := by
  cases columns with
  | none => exact endsName_cons rfl _
  | some names => exact endsName_cons rfl _

/-- A condition on a table is read as what its literal is read as. -/
theorem readAtom_group {catalog : Catalog} {table : String} {columns : Option (List String)}
    {inner : List Char} {literal : Literal} (hname : IsName table)
    (htable : catalog.hasTable table = true)
    (hcolumns : ∀ names ∈ columns, names ≠ [] ∧ ∀ name ∈ names, IsName name)
    (hnested : Nested (fun _ => True) inner) (hread : readLiteral inner = .ok literal) :
    readAtom catalog ("Where".toList ++
      spaced [table.toList ++ renderColumns columns, '(' :: inner ++ [')']]) =
        .ok (.condition table columns literal) := by
  obtain ⟨hne, hall⟩ := isName_iff.mp hname
  have hwords : unwords [table.toList ++ renderColumns columns, '(' :: inner ++ [')']] =
      table.toList ++ (renderColumns columns ++ ' ' :: ('(' :: inner ++ [')'])) := by
    simp [unwords, spaced]
  have hsolid : StartsSolid (unwords [table.toList ++ renderColumns columns,
      '(' :: inner ++ [')']]) := by
    rw [hwords]
    exact (startsSolid_name hname).append _
  have hempty : table.toList.isEmpty = false := by simp [hne]
  have htrim : trim (' ' :: ('(' :: inner ++ [')'])) = '(' :: inner ++ [')'] :=
    trim_cons_of_isBlank rfl ⟨'(', _, rfl, rfl⟩ ⟨')', '(' :: inner, rfl, rfl⟩
  have hgroup : unwrapGroup '(' ('(' :: inner ++ [')']) = some inner := unwrapGroup_group hnested
  rw [readAtom, stripKeyword_where (List.cons_ne_nil _ _) hsolid, hwords]
  simp only [takeName_append_of_endsName hall (endsName_renderColumns _ _), hempty,
    Bool.false_eq_true, if_false, checkTable_of_hasTable htable, ok_bind,
    readColumns_render hcolumns, htrim]
  -- the literal begins with its parenthesis, so no arrow is read
  split
  · rename_i heq
    exact absurd (List.cons.inj heq).1 (by decide)
  · rename_i heq
    exact absurd (List.cons.inj heq).1 (by decide)
  · simp only [hgroup, hread, ok_bind, String.ofList_toList]
    rfl

/-- A condition reads back. -/
theorem readAtom_condition {catalog : Catalog} {table : String}
    {columns : Option (List String)} {literal : Literal} (hname : IsName table)
    (h : (Atom.condition table columns literal).Printable catalog) :
    readAtom catalog ("Where".toList ++
      spaced [table.toList ++ renderColumns columns, literal.render]) =
        .ok (.condition table columns literal) := by
  obtain ⟨⟨htable, -, -⟩, hcolumns, hliteral⟩ := h
  exact readAtom_group hname htable hcolumns (nested_renderInner hliteral)
    (readLiteral_renderInner hliteral)

theorem readRelation_render {catalog : Catalog} {source target : String} (direction : Direction)
    (hname : IsName target) (htarget : catalog.hasTable target = true) (whole : List Char) :
    readRelation catalog direction source.toList none (' ' :: target.toList) whole =
      .ok (.relation direction source target) := by
  have htrim : trim (' ' :: target.toList) = target.toList :=
    trim_cons_of_isBlank rfl (startsSolid_name hname) (endsSolid_name hname)
  have hname' : isName target.toList = true := hname
  simp only [readRelation, Option.isSome_none, Bool.false_eq_true, if_false, htrim, hname',
    Bool.not_true, checkTable_of_hasTable htarget, ok_bind, String.ofList_toList]
  rfl

/-- A relation reads back. -/
theorem readAtom_relation {catalog : Catalog} {direction : Direction} {source target : String}
    (hsource : IsName source) (htarget : IsName target)
    (h : (Atom.relation direction source target).Printable catalog) :
    readAtom catalog ("Where".toList ++ spaced [source.toList, direction.arrow, target.toList]) =
      .ok (.relation direction source target) := by
  obtain ⟨⟨hs, -, -⟩, ht, -, -⟩ := h
  obtain ⟨hne, hall⟩ := isName_iff.mp hsource
  have hwords : unwords [source.toList, direction.arrow, target.toList] =
      source.toList ++ (' ' :: direction.arrow ++ ' ' :: target.toList) := by
    simp [unwords, spaced]
  have hsolid : StartsSolid (unwords [source.toList, direction.arrow, target.toList]) := by
    rw [hwords]
    exact (startsSolid_name hsource).append _
  have hempty : source.toList.isEmpty = false := by simp [hne]
  have hends : EndsName (' ' :: direction.arrow ++ ' ' :: target.toList) := endsName_cons rfl _
  have hread : readColumns (' ' :: direction.arrow ++ ' ' :: target.toList) =
      .ok (none, ' ' :: direction.arrow ++ ' ' :: target.toList) := rfl
  have hend := (endsSolid_name htarget).append (direction.arrow ++ [' '])
  have htrim : trim (' ' :: direction.arrow ++ ' ' :: target.toList) =
      direction.arrow ++ ' ' :: target.toList := by
    refine trim_cons_of_isBlank rfl ?_ ?_
    · cases direction
      · exact ⟨'-', _, rfl, rfl⟩
      · exact ⟨'<', _, rfl, rfl⟩
    · simpa using hend
  rw [readAtom, stripKeyword_where (List.cons_ne_nil _ _) hsolid, hwords]
  simp only [takeName_append_of_endsName hall hends, hempty, Bool.false_eq_true, if_false,
    checkTable_of_hasTable hs, ok_bind, hread, htrim]
  cases direction
  · exact readRelation_render .forward htarget ht _
  · exact readRelation_render .backward htarget ht _

end Grammar

namespace Atom

/-! ### Words -/

/-- The words of a written atom. -/
def words : Atom → List (List Char)
  | condition table columns literal =>
    ["Where".toList, table.toList ++ renderColumns columns, literal.render]
  | relation direction source target =>
    ["Where".toList, source.toList, direction.arrow, target.toList]
  | never => ["Where".toList, "()".toList]

theorem render_eq_unwords (a : Atom) : a.render = unwords a.words := by
  cases a with
  | condition table columns literal =>
    show "Where ".toList ++ table.toList ++ renderColumns columns ++ ' ' :: literal.render = _
    simp [words, unwords, spaced]
  | relation direction source target =>
    show "Where ".toList ++ source.toList ++ ' ' :: direction.arrow ++ ' ' :: target.toList = _
    simp [words, unwords, spaced]
  | never => rfl

theorem words_ne_nil (a : Atom) : a.words ≠ [] := by
  cases a <;> exact List.cons_ne_nil _ _

variable {catalog : Catalog}

theorem word_of_mem_words (hc : catalog.Built) {a : Atom} (h : a.Printable catalog) :
    ∀ w ∈ a.words, Word w := by
  have hword : ∀ table, catalog.Writes table → Word table.toList := fun table ht =>
    have hname := isName_iff.mp (hc.isName ht.1)
    .of_isNameChar hname.1 hname.2
  intro w hw
  cases a with
  | condition table columns literal =>
    obtain ⟨htable, hcolumns, hliteral⟩ := h
    have htable' := hword table htable
    simp only [words, List.mem_cons, List.not_mem_nil, or_false] at hw
    rcases hw with rfl | rfl | rfl
    · exact word_where
    · refine ⟨htable'.nested.append ?_, by simp [htable'.ne_nil]⟩
      cases columns with
      | none => exact .nil
      | some names =>
        refine .char rfl rfl (.of_mem fun c hmem => ?_)
        rcases of_mem_joinNames (hcolumns names rfl).2 hmem with hc | rfl
        · exact ⟨isPlain_of_isNameChar hc, isAsciiBlank_of_isNameChar hc⟩
        · exact ⟨rfl, rfl⟩
    · exact word_render hliteral
  | relation direction source target =>
    simp only [words, List.mem_cons, List.not_mem_nil, or_false] at hw
    rcases hw with rfl | rfl | rfl | rfl
    · exact word_where
    · exact hword source h.1
    · cases direction <;> exact .of_mem (by decide) (by decide)
    · exact hword target h.2
  | never => exact h.elim

/-- No word of an atom is a keyword that no table is spelled like. -/
theorem free_words {keyword : String} (hkey : IsKeyword keyword.toList)
    (hwhere : sameIgnoringCase "Where".toList keyword.toList = false)
    (htables : ∀ table, catalog.Writes table →
      sameIgnoringCase table.toList keyword.toList = false)
    {a : Atom} (h : a.Printable catalog) : Free keyword a.words := by
  intro w hw
  cases a with
  | condition table columns literal =>
    simp only [words, List.mem_cons, List.not_mem_nil, or_false] at hw
    rcases hw with rfl | rfl | rfl
    · exact hwhere
    · -- behind a colon the word is too long, and without one it is the name of the table
      cases columns with
      | none =>
        rw [show renderColumns none = [] from rfl, List.append_nil]
        exact htables table h.1
      | some names =>
        exact sameIgnoringCase_of_mem hkey
          (List.mem_append_right table.toList (List.mem_cons_self ..)) rfl
    · exact sameIgnoringCase_of_head hkey rfl
  | relation direction source target =>
    simp only [words, List.mem_cons, List.not_mem_nil, or_false] at hw
    rcases hw with rfl | rfl | rfl | rfl
    · exact hwhere
    · exact htables source h.1
    · cases direction <;> exact sameIgnoringCase_of_head hkey rfl
    · exact htables target h.2
  | never => exact h.elim

theorem free_and_words {a : Atom} (h : a.Printable catalog) : Free "AND" a.words :=
  free_words (by decide) (by decide) (fun _ htable => htable.2.1) h

theorem free_or_words {a : Atom} (h : a.Printable catalog) : Free "OR" a.words :=
  free_words (by decide) (by decide) (fun _ htable => htable.2.2) h

/-- The last word of an atom ends in a parenthesis or in the name of a table. -/
theorem endsSolid_of_last (hc : catalog.Built) {a : Atom} (h : a.Printable catalog) :
    ∀ w ∈ a.words.getLast?, EndsSolid w := by
  intro w hw
  cases a with
  | condition table columns literal =>
    obtain rfl := Option.some.inj hw
    exact ⟨')', '(' :: literal.renderInner, rfl, rfl⟩
  | relation direction source target =>
    obtain rfl := Option.some.inj hw
    exact endsSolid_name (hc.isName h.2.1)
  | never => exact h.elim

/-- **An atom reads back.** -/
theorem readAtom_render (hc : catalog.Built) {a : Atom} (h : a.Printable catalog) :
    readAtom catalog a.render = .ok a := by
  rw [render_eq_unwords]
  cases a with
  | condition table columns literal => exact readAtom_condition (hc.isName h.1.1) h
  | relation direction source target =>
    exact readAtom_relation (hc.isName h.1.1) (hc.isName h.2.1) h
  | never => exact h.elim

end Atom

end TableQuery
