import TableQuery.Proofs.Grammar.Stages

/-!
# Printing and reading

A printed text is taken apart in the order opposite to the one in which it was put
together: into statements at the semicolons, a statement into its binding, its part in
brackets and its stages, and a part into aggregation, expression and projection. At each
of these cuts the text on either side does not show the separator at the top level, and
what the cut leaves is trimmed to the text that was printed.

The result is `TableQuery.parse_printStatements`: reading undoes printing on every list
of statements that can be printed (`TableQuery.Statement.Printable`), over every catalog
that was built. What the text of the statements holds does not matter.
-/

namespace TableQuery

namespace Grammar

open Text

/-! ### Projections -/

theorem startsSolid_joinNames {names : List String} (hne : names ≠ [])
    (h : ∀ name ∈ names, IsName name) : StartsSolid (joinNames names) := by
  obtain ⟨name, rest, rfl⟩ := List.exists_cons_of_ne_nil hne
  exact startsSolid_joinTexts _ (startsSolid_name (h name (List.mem_cons_self ..)))

theorem endsSolid_joinNames {names : List String} (hne : names ≠ [])
    (h : ∀ name ∈ names, IsName name) : EndsSolid (joinNames names) := by
  refine endsSolid_joinTexts _ (by simpa using hne) fun t ht => ?_
  obtain ⟨name, hname, rfl⟩ := List.mem_map.mp ht
  exact endsSolid_name (h name hname)

/-- The projection that names with commas between them stand for. -/
def projectionOf : List String → Projection
  | [name] => .column name
  | names => .columns names

/-- Names between commas are read as columns. -/
theorem readProjection_of_splitOn {text : List Char} {names : List String} (hne : names ≠ [])
    (h : ∀ name ∈ names, IsName name) (hstar : trim text ≠ ['*'])
    (hcolumns : (splitOn ',' (trim text)).toList.map trim = names.map String.toList) :
    readProjection text = .ok (projectionOf names) := by
  have hback := map_ofList_map_toList names
  simp only [readProjection, beq_eq_false_iff_ne.mpr hstar, Bool.false_eq_true, if_false, hcolumns,
    all_isName_map h, if_true]
  match names, hback with
  | [], _ => exact absurd rfl hne
  | [name], _ => simp [projectionOf]
  | first :: second :: rest, hback =>
    exact congrArg (fun columns => Except.ok (Projection.columns columns)) hback

theorem readProjection_joinNames {names : List String} (hne : names ≠ [])
    (h : ∀ name ∈ names, IsName name) :
    readProjection (joinNames names) = .ok (projectionOf names) := by
  have htrim := trim_of_solid (startsSolid_joinNames hne h) (endsSolid_joinNames hne h)
  refine readProjection_of_splitOn hne h ?_ ?_ <;> rw [htrim]
  · -- no name is a star, so the columns are not taken for all of them
    intro heq
    have hmem : '*' ∈ joinNames names := by
      rw [heq]
      exact List.mem_cons_self ..
    rcases of_mem_joinNames h hmem with hc | hc
    · cases hc
    · exact absurd hc (by decide)
  · rw [splitOn_joinNames hne h, List.map_map]
    exact List.map_congr_left fun name hname =>
      trim_of_solid (startsSolid_name (h name hname)) (endsSolid_name (h name hname))

/-- The keyword of a projection is taken off with the blank behind it. -/
theorem stripKeyword_as_append {text : List Char} (hstart : StartsSolid text) :
    stripKeyword "AS" ("AS".toList ++ ' ' :: text) = some text := by
  have hends : EndsWord (' ' :: text) := fun c hc => (Option.some.inj hc).symm
  have hword : Word "AS".toList := .of_isNameChar (by decide) (by decide)
  rw [stripKeyword_append (by decide) hword hends, if_pos (sameIgnoringCase_self _),
    trimStart_cons_of_isBlank rfl, trimStart_of_startsSolid hstart]

/-- A projection behind its keyword. -/
theorem readOuterProjection_as {text : List Char} {p : Projection} (hstart : StartsSolid text)
    (hend : EndsSolid text) (hread : readProjection text = .ok p) (part : List Char) :
    readOuterProjection none (trim (" AS ".toList ++ text)) part = .ok (some p) := by
  have htext : " AS ".toList ++ text = ' ' :: ("AS".toList ++ ' ' :: text) := rfl
  have htrim : trim (" AS ".toList ++ text) = "AS".toList ++ ' ' :: text := by
    rw [htext]
    exact trim_cons_of_isBlank rfl ⟨'A', _, rfl, rfl⟩ (hend.append ("AS".toList ++ [' ']))
  rw [htrim, readOuterProjection, stripKeyword_as_append hstart]
  simp [hread, Except.map]

/-- **A projection reads back**; the default is what stands where nothing is written. -/
theorem readOuterProjection_render {p : Projection} (h : p.Printable) (part : List Char) :
    ∃ read, readOuterProjection none (trim p.render) part = .ok read ∧
      read.getD .identity = p := by
  cases p with
  | identity => exact ⟨none, rfl, rfl⟩
  | all =>
    have hread : readProjection ['*'] = .ok .all := rfl
    exact ⟨_, readOuterProjection_as ⟨'*', [], rfl, rfl⟩ ⟨'*', [], rfl, rfl⟩ hread part, rfl⟩
  | column name =>
    have hnames : ∀ n ∈ [name], IsName n := fun n hn => by
      obtain rfl := List.mem_singleton.mp hn
      exact h
    have hread := readProjection_joinNames (List.cons_ne_nil _ _) hnames
    exact ⟨_, readOuterProjection_as (startsSolid_name h) (endsSolid_name h) hread part, rfl⟩
  | columns names =>
    obtain ⟨hlen, hnames⟩ := h
    match names, hlen with
    | first :: second :: rest, _ =>
      have hread := readProjection_joinNames (List.cons_ne_nil _ _) hnames
      exact ⟨_, readOuterProjection_as (startsSolid_joinNames (List.cons_ne_nil _ _) hnames)
        (endsSolid_joinNames (List.cons_ne_nil _ _) hnames) hread part, rfl⟩

/-- The characters of a written projection. -/
theorem of_mem_render_projection {p : Projection} (h : p.Printable) {c : Char}
    (hc : c ∈ p.render) : isNameChar c = true ∨ c = ' ' ∨ c = ',' ∨ c = '*' := by
  have has : ∀ d ∈ " AS ".toList, isNameChar d = true ∨ d = ' ' := by decide
  cases p with
  | identity => cases hc
  | all =>
    revert c
    decide
  | column name =>
    rcases List.mem_append.mp hc with hc | hc
    · exact (has c hc).imp_right Or.inl
    · exact Or.inl ((isName_iff.mp h).2 c hc)
  | columns names =>
    rcases List.mem_append.mp hc with hc | hc
    · exact (has c hc).imp_right Or.inl
    · rcases of_mem_joinNames h.2 hc with hc | hc
      · exact Or.inl hc
      · exact Or.inr (Or.inr (Or.inl hc))

/-! ### Aggregations -/

/-- The written aggregation inside the brackets. -/
def renderAggregation (aggregation : Option Aggregation) : List Char :=
  (aggregation.map fun a => a.keyword.toList ++ "() ".toList).getD []

/-- The keyword of an aggregation is found in any case. -/
theorem ofKeyword?_of_sameIgnoringCase {a : Aggregation} {word : List Char}
    (h : sameIgnoringCase word a.keyword.toList = true) : Aggregation.ofKeyword? word = some a := by
  have hself : Aggregation.ofKeyword? a.keyword.toList = some a := by cases a <;> decide
  have hword : Aggregation.ofKeyword? word = Aggregation.ofKeyword? a.keyword.toList := by
    simp only [Aggregation.ofKeyword?, sameIgnoringCase, sameIgnoringCase_iff.mp h]
  rw [hword, hself]

theorem isNameChar_of_mem_keyword (a : Aggregation) :
    ∀ c ∈ a.keyword.toList, isNameChar c = true := by
  cases a <;> decide

/-- **An aggregation is split off** with its parentheses and the blanks behind them. -/
theorem splitAggregation_call {a : Aggregation} {word : List Char}
    (h : sameIgnoringCase word a.keyword.toList = true) (rest : List Char) :
    splitAggregation (word ++ '(' :: ')' :: rest) = some (a, trimStart rest) := by
  have hname := isNameChar_of_sameIgnoringCase h (isNameChar_of_mem_keyword a)
  have htake := takeName_append_of_endsName hname (endsName_cons (c := '(') rfl (')' :: rest))
  rw [splitAggregation, htake]
  simp only [ofKeyword?_of_sameIgnoringCase h]

theorem splitAggregation_render (a : Aggregation) {text : List Char} (hsolid : StartsSolid text) :
    splitAggregation (a.keyword.toList ++ "() ".toList ++ text) = some (a, text) := by
  have htext : a.keyword.toList ++ "() ".toList ++ text =
      a.keyword.toList ++ '(' :: ')' :: ' ' :: text := by
    simp
  rw [htext, splitAggregation_call (sameIgnoringCase_self _), trimStart_cons_of_isBlank rfl,
    trimStart_of_startsSolid hsolid]

theorem endsName_spaced (ws : List (List Char)) : EndsName (spaced ws) := by
  intro c hc
  obtain rfl := endsWord_spaced ws c hc
  rfl

/-- The name that an expression begins with is `NOT`, the keyword of atoms, or empty. -/
theorem takeName_words (e : Expression) :
    (takeName (unwords e.words)).1 ∈ ["NOT".toList, "Where".toList, []] := by
  have htake : ∀ (w : List Char) (ws : List (List Char)), (∀ c ∈ w, isNameChar c = true) →
      (takeName (unwords (w :: ws))).1 = w := by
    intro w ws hw
    rw [unwords, takeName_append_of_endsName hw (endsName_spaced ws)]
  have hbegins : ∀ {ws : List (List Char)}, Begins ws →
      (takeName (unwords ws)).1 ∈ ["NOT".toList, "Where".toList, []] := by
    rintro ws ⟨w, rest, rfl, rfl | ⟨inside, rfl⟩⟩
    · rw [htake _ rest (by decide)]
      decide
    · -- a parenthesis belongs to no name
      rw [unwords, List.cons_append, takeName_of_head rfl]
      simp
  cases e with
  | not e =>
    rw [Expression.words, htake _ e.words (by decide)]
    decide
  | or l r => exact hbegins (Expression.begins_words rfl)
  | and l r => exact hbegins (Expression.begins_words rfl)
  | atom a => exact hbegins (Expression.begins_words rfl)

/-- An expression does not begin with an aggregation. -/
theorem splitAggregation_words (e : Expression) : splitAggregation (unwords e.words) = none := by
  have hnone : Aggregation.ofKeyword? (takeName (unwords e.words)).1 = none := by
    have hword := takeName_words e
    simp only [List.mem_cons, List.not_mem_nil, or_false] at hword
    rcases hword with h | h | h <;> rw [h] <;> decide
  rw [splitAggregation]
  simp only [hnone]

/-- An expression does not begin with a projection. -/
theorem stripKeyword_as_words {catalog : Catalog} (hc : catalog.Built) {e : Expression}
    (h : e.Printable catalog) : stripKeyword "AS" (unwords e.words) = none := by
  have hwords := Expression.word_of_mem_words hc h
  cases e with
  | not e =>
    rw [Expression.words, unwords, stripKeyword_append (by decide)
      (.of_isNameChar (by decide) (by decide)) (endsWord_spaced _), if_neg (by decide)]
  | or l r =>
    exact (Expression.begins_words rfl).stripKeyword_eq_none (by decide) (by decide) hwords
  | and l r =>
    exact (Expression.begins_words rfl).stripKeyword_eq_none (by decide) (by decide) hwords
  | atom a =>
    exact (Expression.begins_words rfl).stripKeyword_eq_none (by decide) (by decide) hwords

/-! ### Parts -/

/-- What stands in the brackets of a statement. -/
def renderInside (aggregation : Option Aggregation) (e : Expression) : List Char :=
  renderAggregation aggregation ++ unwords e.words

section Inside

variable {catalog : Catalog} {e : Expression}

theorem nested_renderInside (hc : catalog.Built) (h : e.Printable catalog)
    (aggregation : Option Aggregation) :
    Nested (fun _ => True) (renderInside aggregation e) := by
  have hwords := nested_unwords (Expression.word_of_mem_words hc h)
  refine Nested.append ?_ hwords
  cases aggregation with
  | none => exact .nil
  | some a =>
    have hparens : Nested (fun _ => True) ('(' :: ([] ++ ')' :: [' '])) :=
      .group (Or.inl rfl) (Or.inl rfl) trivial .nil (.of_mem (by decide))
    exact (Nested.of_isNameChar (isNameChar_of_mem_keyword a) fun _ _ => trivial).append hparens

theorem trim_renderInside (hc : catalog.Built) (h : e.Printable catalog)
    (aggregation : Option Aggregation) :
    trim (renderInside aggregation e) = renderInside aggregation e := by
  refine trim_of_solid ?_ ((Expression.ends_words hc h).endsSolid.append _)
  cases aggregation with
  | none => exact e.startsSolid_words
  | some a => cases a <;> exact ⟨_, _, rfl, rfl⟩

/-- The aggregation in the brackets reads back. -/
theorem readInnerAggregation_render (aggregation : Option Aggregation) (part : List Char) :
    readInnerAggregation none (renderInside aggregation e) part =
      .ok (aggregation, unwords e.words) := by
  cases aggregation with
  | none =>
    rw [renderInside, show renderAggregation none = [] from rfl, List.nil_append,
      readInnerAggregation, splitAggregation_words]
  | some a =>
    have hsplit := splitAggregation_render a e.startsSolid_words
    have hinside : renderInside (some a) e =
        a.keyword.toList ++ "() ".toList ++ unwords e.words := rfl
    rw [hinside, readInnerAggregation, hsplit]
    rfl

end Inside

/-- The written part of a statement: its brackets, and the projection behind them. -/
def renderPart (s : Statement) : List Char :=
  '[' :: (renderInside s.aggregation s.expression ++ ']' :: s.projection.render)

variable {catalog : Catalog} {s : Statement}

/-- **A part reads back**, as a statement without a name and without stages. -/
theorem readPart_renderPart (hc : catalog.Built) (h : s.Printable catalog) :
    readPart catalog none (renderPart s) =
      .ok { expression := s.expression, aggregation := s.aggregation
            projection := s.projection } := by
  have hsplit : splitGroup (renderPart s) =
      some (renderInside s.aggregation s.expression, s.projection.render) :=
    splitGroup_append (Or.inr rfl) (Or.inr rfl)
      (nested_renderInside hc h.expression s.aggregation) s.projection.render
  -- the printer writes the projection behind the brackets only
  have hinner : readInnerProjection (unwords s.expression.words) =
      .ok (none, unwords s.expression.words) := by
    rw [readInnerProjection, stripKeyword_as_words hc h.expression]
  have hexpression : readExpression catalog (unwords s.expression.words) = .ok s.expression :=
    (readsBack hc h.expression).expression _ (Expression.trim_words hc h.expression)
  obtain ⟨read, hread, hprojection⟩ := readOuterProjection_render h.projection (renderPart s)
  rw [readPart]
  simp only [hsplit, trim_renderInside hc h.expression, readInnerAggregation_render, ok_bind,
    hinner, hread, hexpression, hprojection]
  rfl

/-! ### Cutting a statement -/

theorem nested_render_projection {P : Char → Prop} {p : Projection} (h : p.Printable)
    (hname : ∀ c, isNameChar c = true → P c) (hblank : P ' ') (hcomma : P ',') (hstar : P '*') :
    Nested P p.render := by
  refine .of_mem fun c hc => ?_
  rcases of_mem_render_projection h hc with hc | rfl | rfl | rfl
  · exact ⟨isPlain_of_isNameChar hc, hname c hc⟩
  · exact ⟨rfl, hblank⟩
  · exact ⟨rfl, hcomma⟩
  · exact ⟨rfl, hstar⟩

/-- At the top level a part shows its opening bracket and its projection. -/
theorem nested_renderPart {P : Char → Prop} (hc : catalog.Built) (h : s.Printable catalog)
    (hbracket : P '[') (hname : ∀ c, isNameChar c = true → P c) (hblank : P ' ') (hcomma : P ',')
    (hstar : P '*') : Nested P (renderPart s) :=
  .group (Or.inr rfl) (Or.inr rfl) hbracket (nested_renderInside hc h.expression s.aggregation)
    (nested_render_projection h.projection hname hblank hcomma hstar)

theorem endsSolid_render_projection {p : Projection} (h : p.Printable) :
    p.render = [] ∨ EndsSolid p.render := by
  cases p with
  | identity => exact Or.inl rfl
  | all => exact Or.inr ⟨'*', " AS ".toList, rfl, rfl⟩
  | column name => exact Or.inr ((endsSolid_name h).append " AS ".toList)
  | columns names =>
    have hne : names ≠ [] := by
      rintro rfl
      exact absurd h.1 (by simp)
    exact Or.inr ((endsSolid_joinNames hne h.2).append " AS ".toList)

theorem solid_renderPart (h : s.Printable catalog) :
    StartsSolid (renderPart s) ∧ EndsSolid (renderPart s) := by
  refine ⟨⟨'[', _, rfl, rfl⟩, ?_⟩
  rcases endsSolid_render_projection h.projection with hnil | hend
  · rw [renderPart, hnil]
    exact ⟨']', '[' :: renderInside s.aggregation s.expression, rfl, rfl⟩
  · exact (hend.append [']']).append ('[' :: renderInside s.aggregation s.expression)

/-- A part begins with the only bracket at its top level, and what is in front of it is cut
off. -/
theorem splitParts_group {front inside behind : List Char} (hfront : Nested (· ≠ '[') front)
    (hinside : Balanced inside) (hbehind : Nested (· ≠ '[') behind) :
    splitParts (front ++ '[' :: (inside ++ ']' :: behind)) =
      (front, ['[' :: (inside ++ ']' :: behind)]) := by
  have hstart := Scan.outside_start
  -- inside the brackets nothing is at the top level
  have htop : ∀ c ∈ Scan.top (Scan.step {} '[') (inside ++ ']' :: behind), c ≠ '[' := by
    intro c hmem
    rw [hinside.top_group hstart (Or.inr rfl) (Or.inr rfl)] at hmem
    exact (hbehind.of_mem_top hstart hmem).2
  have hpass := splitPartsFrom_append [] htop
  rw [List.append_nil] at hpass
  have hcut : (Scan.atTop {} && '[' == '[') = true := rfl
  rw [splitParts, splitPartsFrom_append _ fun c hc => (hfront.of_mem_top hstart hc).2,
    hfront.run_eq hstart, splitPartsFrom, hcut, if_pos rfl, hpass]
  simp [splitPartsFrom, Pieces.growAll, Pieces.grow, Pieces.cut]

theorem splitParts_renderPart (hc : catalog.Built) (h : s.Printable catalog) :
    splitParts (renderPart s) = ([], [renderPart s]) :=
  splitParts_group .nil (nested_renderInside hc h.expression s.aggregation).balanced
    (nested_render_projection h.projection (fun c hc => ne_of_isNameChar hc rfl) (by decide)
      (by decide) (by decide))

/-- A statement without its binding: the part, and the stages behind bars. -/
def renderBody (s : Statement) : List Char :=
  joinTexts [' ', '|', ' '] (renderPart s :: s.stages.map stageText)

theorem joinTexts_cons_eq_flatMap (sep t : List Char) (ts : List (List Char)) :
    joinTexts sep (t :: ts) = t ++ ts.flatMap (sep ++ ·) := by
  induction ts generalizing t with
  | nil => simp [joinTexts]
  | cons u ts ih => rw [joinTexts_cons_cons, ih, List.flatMap_cons, List.append_assoc,
      List.append_assoc]

theorem render_statement (s : Statement) : s.render = s.renderBinding ++ renderBody s := by
  have hstages : s.stages.flatMap StageCall.render =
      (s.stages.map stageText).flatMap ([' ', '|', ' '] ++ ·) := by
    rw [List.flatMap_map]
    exact congrArg (s.stages.flatMap ·) (funext render_stage)
  rw [renderBody, joinTexts_cons_eq_flatMap, ← hstages, renderPart, renderInside,
    ← Expression.render_eq_unwords, Statement.render, renderAggregation]
  simp

/-! ### Bindings -/

/-- The binding of a statement, if it has a name. -/
def bindingOf (s : Statement) : Option Binding :=
  s.name.map fun name => ⟨name, s.targetKey⟩

/-- The written key behind the name of a binding. -/
def renderKey (key : Option String) : List Char :=
  (key.map fun k => '.' :: k.toList).getD []

theorem readBindingKey_render {key : Option String} (h : ∀ k ∈ key, IsName k)
    (rest segment : List Char) :
    readBindingKey (renderKey key ++ " = ".toList ++ rest) segment =
      .ok (key, " = ".toList ++ rest) := by
  cases key with
  | none => rfl
  | some key =>
    obtain ⟨hne, hall⟩ := isName_iff.mp (h key rfl)
    have hends : EndsName (" = ".toList ++ rest) := endsName_cons rfl _
    have hempty : key.toList.isEmpty = false := by simp [hne]
    have htext : renderKey (some key) ++ " = ".toList ++ rest =
        '.' :: (key.toList ++ (" = ".toList ++ rest)) := by
      simp [renderKey]
    simp only [htext, readBindingKey, takeName_append_of_endsName hall hends, hempty,
      Bool.false_eq_true, if_false, String.ofList_toList]

/-- **A binding reads back**, and leaves the body of the statement. -/
theorem readBinding_render (h : s.Printable catalog) {rest : List Char}
    (hend : EndsSolid ('[' :: rest)) :
    readBinding (s.renderBinding ++ '[' :: rest) = .ok (bindingOf s, '[' :: rest) := by
  cases hname : s.name with
  | none =>
    rw [Statement.renderBinding, bindingOf, hname]
    rfl
  | some name =>
    obtain ⟨hword, hreserved⟩ := h.name name hname
    obtain ⟨hne, hall⟩ := isName_iff.mp hword
    have hends : EndsName (renderKey s.targetKey ++ " = ".toList ++ '[' :: rest) := by
      cases s.targetKey <;> exact endsName_cons rfl _
    have hempty : name.toList.isEmpty = false := by simp [hne]
    -- a reserved name would be refused here
    have hcontains : reservedNames.contains name = false := by simpa using hreserved
    have hkey := readBindingKey_render (fun k hk => (h.targetKey k hk).1) ('[' :: rest)
      (s.renderBinding ++ '[' :: rest)
    have hequals : trimStart (" = ".toList ++ '[' :: rest) = '=' :: ' ' :: '[' :: rest := rfl
    have htrim : trim (' ' :: '[' :: rest) = '[' :: rest :=
      trim_cons_of_isBlank rfl ⟨'[', rest, rfl, rfl⟩ hend
    have htext : s.renderBinding ++ '[' :: rest =
        '$' :: (name.toList ++ (renderKey s.targetKey ++ " = ".toList ++ '[' :: rest)) := by
      rw [Statement.renderBinding, hname]
      simp [renderKey]
    rw [htext] at hkey ⊢
    simp only [readBinding, takeName_append_of_endsName hall hends, hempty, Bool.false_eq_true,
      if_false, String.ofList_toList, hcontains, hkey, ok_bind, hequals, htrim, bindingOf, hname,
      Option.map_some]
    rfl

/-! ### Segments -/

theorem solid_stages {P : Char → Prop} (h : s.Printable catalog) (hat : P '@') (hparen : P '(')
    (hname : ∀ c, isStageNameChar c = true → P c) :
    ∀ t ∈ s.stages.map stageText, Nested P t ∧ StartsSolid t ∧ EndsSolid t := by
  intro t ht
  obtain ⟨stage, hstage, rfl⟩ := List.mem_map.mp ht
  exact solid_stageText (h.stages stage hstage) hat hparen hname

theorem ne_of_isStageNameChar {c d : Char} (hc : isStageNameChar c = true)
    (hd : isStageNameChar d = false) : c ≠ d := by
  rintro rfl
  rw [hd] at hc
  cases hc

/-- The part and the stages of a statement come apart at the bars. -/
theorem map_trim_splitTop_renderBody (hc : catalog.Built) (h : s.Printable catalog) :
    (splitTop '|' (renderBody s)).toList.map trim = renderPart s :: s.stages.map stageText := by
  refine map_trim_splitTop_joinTexts rfl (by decide) [' '] (by simp) (List.cons_ne_nil _ _)
    fun t ht => ?_
  rcases List.mem_cons.mp ht with rfl | ht
  · exact ⟨nested_renderPart hc h (by decide) (fun c hc => ne_of_isNameChar hc rfl) (by decide)
      (by decide) (by decide), solid_renderPart h⟩
  · exact solid_stages h (by decide) (by decide) (fun c hc => ne_of_isStageNameChar hc rfl) t ht

theorem solid_renderBody (h : s.Printable catalog) :
    (∃ rest, renderBody s = '[' :: rest) ∧ EndsSolid (renderBody s) := by
  constructor
  · rw [renderBody, joinTexts_cons_eq_flatMap, renderPart, List.cons_append]
    exact ⟨_, rfl⟩
  · refine endsSolid_joinTexts _ (List.cons_ne_nil _ _) fun t ht => ?_
    rcases List.mem_cons.mp ht with rfl | ht
    · exact (solid_renderPart h).2
    · exact (solid_stages (P := fun _ => True) h trivial trivial (fun _ _ => trivial) t ht).2.2

/-- **A statement reads back.** -/
theorem readSegment_render (hc : catalog.Built) (h : s.Printable catalog) :
    readSegment catalog s.render = .ok [s] := by
  obtain ⟨⟨rest, hrest⟩, hend⟩ := solid_renderBody h
  have hbinding : readBinding s.render = .ok (bindingOf s, renderBody s) := by
    rw [render_statement, hrest]
    exact readBinding_render h (hrest ▸ hend)
  have hpieces := map_trim_splitTop_renderBody hc h
  obtain ⟨hpart, hstages⟩ := List.cons.inj hpieces
  have hread : (splitTop '|' (renderBody s)).2.mapM readStage = .ok s.stages :=
    mapM_eq_ok hstages fun stage hstage p hp => readStage_stageText (h.stages stage hstage) hp
  have htrim := trim_of_solid (solid_renderPart h).1 (solid_renderPart h).2
  have hname : (bindingOf s).map Binding.name = s.name := by
    rw [bindingOf, Option.map_map]
    exact Option.map_id'
  have hkey : (bindingOf s).bind Binding.key = s.targetKey := by
    rw [bindingOf]
    cases hkey : s.targetKey with
    | none => cases s.name <;> rfl
    | some key =>
      obtain ⟨name, hsome⟩ := Option.ne_none_iff_exists'.mp (h.targetKey key hkey).2
      rw [hsome]
      rfl
  -- nothing stands in front of the only part, and aggregations are written inside it
  have haggregation : readAggregation (trim []) = .ok none := rfl
  rw [readSegment]
  simp only [hbinding, ok_bind, hread, hpart, splitParts_renderPart hc h, htrim, haggregation,
    readPart_renderPart hc h, List.mapM_nil, pure_bind, mapLast, hname, hkey]
  rfl

/-- What a segment shows at the top level. -/
theorem nested_render_statement (hc : catalog.Built) (h : s.Printable catalog) :
    Nested (· ≠ ';') s.render := by
  have hname : ∀ name : String, IsName name → Nested (· ≠ ';') name.toList := fun name hn =>
    .of_isNameChar (isName_iff.mp hn).2 fun c hc => ne_of_isNameChar hc rfl
  have hbinding : Nested (· ≠ ';') s.renderBinding := by
    rw [Statement.renderBinding]
    cases hsome : s.name with
    | none => exact .nil
    | some name =>
      have hkey : Nested (· ≠ ';') (renderKey s.targetKey) := by
        cases hsome : s.targetKey with
        | none => exact .nil
        | some key => exact .char rfl (by decide) (hname key (h.targetKey key hsome).1)
      exact ((Nested.char rfl (by decide) (hname name (h.name name hsome).1)).append hkey).append
        (.of_mem (by decide))
  rw [render_statement]
  refine hbinding.append (nested_joinTexts (.of_mem (by decide)) fun t ht => ?_)
  rcases List.mem_cons.mp ht with rfl | ht
  · exact nested_renderPart hc h (by decide) (fun c hc => ne_of_isNameChar hc rfl) (by decide)
      (by decide) (by decide)
  · exact (solid_stages h (by decide) (by decide)
      (fun c hc => ne_of_isStageNameChar hc rfl) t ht).1

theorem solid_render_statement (h : s.Printable catalog) :
    StartsSolid s.render ∧ EndsSolid s.render := by
  obtain ⟨⟨rest, hrest⟩, hend⟩ := solid_renderBody h
  rw [render_statement]
  refine ⟨?_, hend.append _⟩
  rw [Statement.renderBinding]
  cases s.name with
  | none => exact ⟨'[', rest, hrest, rfl⟩
  | some name => exact ⟨'$', _, rfl, rfl⟩

theorem mapM_readSegment_render (hc : catalog.Built) {statements : List Statement}
    (h : ∀ s ∈ statements, s.Printable catalog) :
    (statements.map Statement.render).mapM (readSegment catalog) =
      .ok (statements.map fun s => [s]) := by
  induction statements with
  | nil => rfl
  | cons s statements ih =>
    have hs := readSegment_render hc (h s (List.mem_cons_self ..))
    have hrest := ih fun t ht => h t (List.mem_cons_of_mem _ ht)
    rw [List.map_cons, List.mapM_cons, hs, hrest]
    rfl

/-- The text of statements comes apart at the semicolons; no statement is blank. -/
theorem segments_render (hc : catalog.Built) {statements : List Statement}
    (h : ∀ s ∈ statements, s.Printable catalog) :
    ((splitTop ';' (joinTexts [';', ' '] (statements.map Statement.render))).toList.map
      trim).filter (fun t => !t.isEmpty) = statements.map Statement.render := by
  by_cases hne : statements = []
  · rw [hne]
    rfl
  · have hne' : statements.map Statement.render ≠ [] := by simpa using hne
    have hsolid : ∀ t ∈ statements.map Statement.render,
        Nested (· ≠ ';') t ∧ StartsSolid t ∧ EndsSolid t := by
      intro t ht
      obtain ⟨s, hs, rfl⟩ := List.mem_map.mp ht
      exact ⟨nested_render_statement hc (h s hs), solid_render_statement (h s hs)⟩
    have hsplit := map_trim_splitTop_joinTexts rfl (by decide) [] (by simp) hne' hsolid
    rw [List.nil_append] at hsplit
    rw [hsplit]
    -- blank segments are dropped, and a statement is none of them
    refine List.filter_eq_self.mpr fun t ht => ?_
    obtain ⟨s, hs, rfl⟩ := List.mem_map.mp ht
    obtain ⟨c, rest, hrest, -⟩ := (solid_render_statement (h s hs)).1
    rw [hrest]
    rfl

/-- **Statements read back**, given as characters. -/
theorem readStatements_render (hc : catalog.Built) {statements : List Statement}
    (h : ∀ s ∈ statements, s.Printable catalog) :
    readStatements catalog (joinTexts [';', ' '] (statements.map Statement.render)) =
      .ok statements := by
  have hnested : Nested (fun _ => True)
      (joinTexts [';', ' '] (statements.map Statement.render)) := by
    refine nested_joinTexts (.of_mem (by decide)) fun t ht => ?_
    obtain ⟨s, hs, rfl⟩ := List.mem_map.mp ht
    exact (nested_render_statement hc (h s hs)).mono fun _ _ => trivial
  have hflatten : (statements.map fun s => [s]).flatten = statements := by
    rw [← List.flatMap_def]
    exact List.flatMap_singleton' statements
  rw [readStatements, isBalanced_of_nested hnested]
  simp only [Bool.not_true, Bool.false_eq_true, if_false, segments_render hc h,
    mapM_readSegment_render hc h, ok_bind, hflatten]
  rfl

end Grammar

/-- **Reading undoes printing.** For every catalog that was built, the text of statements
that can be printed is read as these statements. -/
theorem parse_printStatements {catalog : Catalog} (hc : catalog.Built)
    {statements : List Statement} (h : ∀ s ∈ statements, s.Printable catalog) :
    parse catalog (printStatements statements) = .ok statements := by
  rw [parse, printStatements, String.toList_ofList]
  exact Grammar.readStatements_render hc h

/-- Statements whose texts hold separators, keywords and wildcards of their own. -/
def sampleStatements : List Statement :=
  let posts (literal : Literal) : Expression :=
    .atom (.condition "posts" (some ["title", "author_id"]) literal)
  [{ name := some "authors"
     expression := .and (.not (posts (.text "a; b | [c]" true .contains)))
       (.or (.not (.atom (.relation .backward "users" "posts")))
         (posts (.text "*" false .contains)))
     projection := .columns ["id", "title"]
     aggregation := some .unique },
   { name := some "authors"
     expression := .or (posts (.list [⟨.required, " AND \"x\" OR "⟩, ⟨.excluded, "~"⟩]))
       (.and (posts (.dateRange none (some "a..b\\"))) (posts (.variableRef "authors" none .all)))
     targetKey := some "posts"
     stages := [
       { name := "core.sort"
         arguments := [⟨some "order", .str "a=b, c"⟩, ⟨none, .num (.int (-5))⟩,
           ⟨none, .bool true⟩, ⟨none, .num (.float ⟨true, 3, by decide⟩)⟩] },
       { name := "distinct", arguments := [] }] }]

theorem parse_printStatements_sample :
    Catalog.blog.Built ∧ (∀ s ∈ sampleStatements, s.Printable Catalog.blog) ∧
      parse Catalog.blog (printStatements sampleStatements) = .ok sampleStatements :=
  ⟨Catalog.built_blog, by decide, parse_printStatements Catalog.built_blog (by decide)⟩

end TableQuery
