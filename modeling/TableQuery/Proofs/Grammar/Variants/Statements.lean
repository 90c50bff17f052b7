import TableQuery.Proofs.Grammar.Variants.Stages

/-!
# Statements that differ in kinds

The keyword of an aggregation is the one place where the kind of a bracket counts, as
empty parentheses must follow it. The variants that are considered leave these alone, so an
aggregation stays. Where a variant gained one, the text began with a call like `COUNT(]`,
and no expression does (`TableQuery.Grammar.StartsCall.readExpression`): then the text was
not read in the first place. So a text that is read is read like its variants
(`TableQuery.Grammar.Variant.readStatements`).
-/

namespace TableQuery

namespace Grammar

open Text

variable {catalog : Catalog} {opened : Bool} {a b : List Char}

namespace Variant

/-! ### Aggregations -/

/-- An aggregation in front of a text is in front of its variants. -/
theorem splitAggregation (h : Variant opened a b) {aggregation : Aggregation}
    {rest : List Char} (ha : splitAggregation a = some (aggregation, rest)) :
    ∃ rest', splitAggregation b = some (aggregation, rest') ∧ Variant false rest rest' := by
  obtain ⟨hname, hbehind⟩ := h.takeName
  unfold Grammar.splitAggregation at ha ⊢
  dsimp only at ha ⊢
  rw [hname]
  split at ha
  · rename_i g text hword hparens
    obtain ⟨rfl, rfl⟩ := Prod.mk.inj (Option.some.inj ha)
    rw [hparens] at hbehind
    obtain ⟨x, hx, h'⟩ := hbehind.exists_of_cons (by decide)
    -- the parenthesis that closes right behind stays one
    obtain ⟨y, rfl, hrest⟩ : ∃ y, x = ')' :: y ∧ Variant false text y := by
      cases h' with
      | same _ h => exact ⟨_, rfl, h.loosen⟩
      | closing _ _ hkeep h =>
        obtain rfl := hkeep rfl rfl
        exact ⟨_, rfl, h⟩
    rw [hword, hx]
    exact ⟨_, rfl, hrest.trimStart⟩
  · cases ha

theorem readAggregation (h : Variant opened a b) :
    Follows Eq (readAggregation a) (readAggregation b) := by
  unfold Grammar.readAggregation
  refine .ite (by rw [h.isEmpty_eq]) (.ok rfl) ?_
  split
  · rename_i aggregation ha
    obtain ⟨rest', hb, hrest⟩ := h.splitAggregation ha
    cases hrest
    rw [hb]
    exact .ok rfl
  · exact .error

/-! ### Projections -/

theorem afterColumns (h : Variant opened a b) :
    Variant false (afterColumns a) (afterColumns b) := by
  fun_induction Grammar.afterColumns a generalizing opened b with
  | case1 a next hnext ih =>
    have htrim := h.takeName.2.trimStart
    rw [hnext] at htrim
    obtain ⟨y, hy, h'⟩ := htrim.exists_of_cons (by decide)
    have hb : Grammar.afterColumns b = Grammar.afterColumns (Text.trimStart y) := by
      rw [Grammar.afterColumns]
      split
      · rename_i next' hnext'
        rw [(List.cons.inj (hnext'.symm.trans hy)).2]
      · rename_i hne
        exact (hne _ hy).elim
    rw [hb]
    exact ih h'.trimStart
  | case2 a hne =>
    have hrest := h.takeName.2
    rw [Grammar.afterColumns]
    split
    · rename_i next hnext
      have htrim := hrest.trimStart
      rw [hnext] at htrim
      obtain ⟨x, hx, -⟩ := htrim.exists_of_cons_right (by decide)
      exact (hne _ hx).elim
    · exact hrest

theorem splitProjection (h : Variant opened a b) :
    Variant opened (splitProjection a).1 (splitProjection b).1 ∧
      Variant false (splitProjection a).2 (splitProjection b).2 := by
  have hstar : ¬IsClosing '*' := by decide
  have htrim := h.trimStart
  have hrest : Variant false (Grammar.splitProjection a).2 (Grammar.splitProjection b).2 := by
    unfold Grammar.splitProjection
    dsimp only
    generalize Text.trimStart a = s at htrim ⊢
    generalize Text.trimStart b = t at htrim ⊢
    split
    · obtain ⟨_, rfl, h'⟩ := htrim.exists_of_cons (by decide)
      exact h'.loosen
    · rename_i hne
      split
      · obtain ⟨_, rfl, -⟩ := htrim.exists_of_cons_right (by decide)
        exact (hne _ rfl).elim
      · exact htrim.afterColumns
  refine ⟨?_, hrest⟩
  have hfront : ∀ text : List Char, (Grammar.splitProjection text).1 =
      text.take (text.length - (Grammar.splitProjection text).2.length) := fun _ => rfl
  rw [hfront, hfront, h.length_eq, hrest.length_eq]
  exact h.take _

theorem readProjection (h : Variant opened a b) :
    Follows Eq (readProjection a) (readProjection b) := by
  have hcomma : KindBlind (· == ',') := rfl
  have htrim := h.trim
  have hcolumns : List.Forall₂ (Variant false)
      ((Grammar.splitOn ',' (Text.trim a)).toList.map Text.trim)
      ((Grammar.splitOn ',' (Text.trim b)).toList.map Text.trim) :=
    List.rel_map (fun _ _ h => h.trim) (htrim.splitOn hcomma).toList
  unfold Grammar.readProjection
  dsimp only
  have hstar : Text.trim a = ['*'] ↔ Text.trim b = ['*'] := by
    refine ⟨fun ha => ?_, fun hb => ?_⟩
    · rw [ha] at htrim
      exact htrim.eq_of_left (by decide)
    · rw [hb] at htrim
      exact (htrim.eq_of_right (by decide)).symm
  refine .ite (by rw [beq_iff_eq, beq_iff_eq, hstar]) (.ok rfl) ?_
  split_ifs with hall hall'
  · rw [eq_of_all_isName hcolumns hall]
    exact .refl
  · exact absurd (eq_of_all_isName hcolumns hall ▸ hall) hall'
  · exact .error
  · exact .error

end Variant

/-! ### Calls

A name with a parenthesis right behind it begins no expression. So if the kind of a bracket
made an aggregation of what was none before, the text could not be read. -/

/-- A name, and a parenthesis that opens behind it. -/
def StartsCall (text : List Char) : Prop :=
  ∃ name rest, text = name ++ '(' :: rest ∧ name ≠ [] ∧ ∀ c ∈ name, isNameChar c = true

namespace StartsCall

variable {text : List Char}

/-- Such a text begins with no keyword. -/
theorem stripKeyword_eq_none (h : StartsCall text) {keyword : String}
    (hkey : IsKeyword keyword.toList) : stripKeyword keyword text = none := by
  obtain ⟨name, rest, rfl, -, hname⟩ := h
  unfold stripKeyword
  dsimp only
  split
  · rename_i hsame
    have htaken := isNameChar_of_sameIgnoringCase hsame hkey
    have hle : keyword.toList.length ≤ name.length := by
      by_contra hlt
      obtain ⟨n, hn⟩ : ∃ n, keyword.toList.length = name.length + (n + 1) :=
        ⟨keyword.toList.length - name.length - 1, by omega⟩
      have hmem : '(' ∈ (name ++ '(' :: rest).take keyword.toList.length := by
        rw [hn, List.take_length_add_append, List.take_succ_cons]
        exact List.mem_append_right _ (List.mem_cons_self ..)
      exact absurd (htaken '(' hmem) (by decide)
    rw [List.drop_append_of_le_length hle]
    cases hdrop : name.drop keyword.toList.length with
    | nil => rfl
    | cons c cs =>
      have hc : c ∈ name := List.mem_of_mem_drop (hdrop ▸ List.mem_cons_self ..)
      simp [isAsciiBlank_of_isNameChar (hname c hc)]
  · rfl

protected theorem trim (h : StartsCall text) : StartsCall (trim text) := by
  obtain ⟨name, rest, rfl, hne, hname⟩ := h
  have hstart : StartsSolid (name ++ '(' :: rest) :=
    (startsSolid_of_mem hne fun c hc => isBlank_of_isNameChar (hname c hc)).append _
  refine ⟨name, trimEnd rest, ?_, hne, hname⟩
  rw [trim, trimStart_of_startsSolid hstart, trimEnd_append_cons rfl]

/-- No keyword is cut out of the name or in front of the parenthesis. -/
theorem splitKeyword (h : StartsCall text) (keyword : String) :
    StartsCall (splitKeyword keyword text).1 := by
  obtain ⟨name, rest, rfl, hne, hname⟩ := h
  have hnested : Nested (fun c => isAsciiBlank c = false) name :=
    .of_isNameChar hname fun _ => isAsciiBlank_of_isNameChar
  have hsplit : Grammar.splitKeyword keyword (name ++ '(' :: rest) = _ :=
    hnested.splitKeywordFrom_append keyword.toList ('(' :: rest)
  rw [hsplit]
  exact ⟨name, _, rfl, hne, hname⟩

theorem readOperand (h : StartsCall text) (catalog : Catalog) :
    ∃ e, readOperand catalog text = .error e := by
  have hnot : IsKeyword "NOT".toList := by decide
  have hwhere : IsKeyword "WHERE".toList := by decide
  have hatom : readAtom catalog (trim text) = fail .noWhere (trim text) := by
    rw [readAtom, h.trim.stripKeyword_eq_none hwhere]
  obtain ⟨name, rest, htext, hne, hname⟩ := h.trim
  obtain ⟨c, cs, rfl⟩ := List.exists_cons_of_ne_nil hne
  have hgroup : unwrapGroup '(' (trim text) = none := by
    rw [htext]
    exact unwrapGroup_of_ne (ne_of_isNameChar (hname c (List.mem_cons_self ..)) rfl) _
  have htrim : trim text ≠ [] := by
    rw [htext]
    exact List.cons_ne_nil _ _
  rw [readOperand_atom htrim (h.trim.stripKeyword_eq_none hnot) hgroup, hatom]
  exact ⟨_, rfl⟩

theorem readExpression (h : StartsCall text) (catalog : Catalog) :
    ∃ e, readExpression catalog text = .error e := by
  have hnot : IsKeyword "NOT".toList := by decide
  have hne : trim text ≠ [] := by
    obtain ⟨name, rest, heq, -⟩ := h.trim
    rw [heq]
    exact List.append_ne_nil_of_right_ne_nil _ (List.cons_ne_nil _ _)
  obtain ⟨e, he⟩ := ((h.trim.splitKeyword "OR").splitKeyword "AND").readOperand catalog
  rw [readExpression_eq hne (h.trim.stripKeyword_eq_none hnot), readDisjunction]
  refine ⟨e, readPieces_eq_error ?_⟩
  rw [readConjunction_eq]
  exact readPieces_eq_error he

end StartsCall

/-- A text with a variant that begins with an aggregation begins with a call. -/
theorem startsCall_of_splitAggregation (h : Variant opened a b)
    {r : Aggregation × List Char} (hb : splitAggregation b = some r) : StartsCall a := by
  obtain ⟨hname, hbehind⟩ := h.takeName
  rw [splitAggregation] at hb
  dsimp only at hb
  split at hb
  · rename_i aggregation rest hword hparens
    rw [hparens] at hbehind
    obtain ⟨x, hx, -⟩ := hbehind.exists_of_cons_right (by decide)
    refine ⟨(takeName a).1, x, ?_, fun hnil => ?_, fun c hc => ?_⟩
    · rw [← hx, takeName_append]
    · rw [hname, hnil] at hword
      cases hword
    · exact List.all_eq_true.mp List.all_takeWhile c hc
  · cases hb

/-! ### Parts -/

namespace Variant

theorem readInnerAggregation (h : Variant opened a b)
    (hcall : Grammar.splitAggregation a = none → ¬StartsCall a) {outer : Option Aggregation}
    {part part' : List Char} :
    Follows (Leaving Eq)
      (readInnerAggregation outer a part) (readInnerAggregation outer b part') := by
  unfold Grammar.readInnerAggregation
  cases ha : Grammar.splitAggregation a with
  | some r =>
    obtain ⟨aggregation, rest⟩ := r
    obtain ⟨rest', hb, hrest⟩ := h.splitAggregation ha
    rw [hb]
    exact .ite Iff.rfl .error (.ok ⟨rfl, hrest⟩)
  | none =>
    have hb : Grammar.splitAggregation b = none := Option.eq_none_iff_forall_ne_some.mpr
      fun r hb => hcall ha (startsCall_of_splitAggregation h hb)
    rw [hb]
    exact .ok ⟨rfl, h.loosen⟩

theorem readInnerProjection (h : Variant opened a b) :
    Follows (Leaving Eq) (readInnerProjection a)
      (readInnerProjection b) := by
  have hkey : IsKeyword "AS".toList := by decide
  have has := h.stripKeyword hkey
  unfold Grammar.readInnerProjection
  generalize Grammar.stripKeyword "AS" a = r at has ⊢
  generalize Grammar.stripKeyword "AS" b = r' at has ⊢
  cases has with
  | none => exact .ok ⟨rfl, h.loosen⟩
  | some hrest =>
    obtain ⟨hcolumns, hbehind⟩ := hrest.splitProjection
    exact hcolumns.readProjection.map fun _ _ hprojection => ⟨by rw [hprojection], hbehind⟩

theorem readOuterProjection (h : Variant opened a b) {inside : Option Projection}
    {part part' : List Char} :
    Follows Eq (readOuterProjection inside a part) (readOuterProjection inside b part') := by
  have hkey : IsKeyword "AS".toList := by decide
  have has := h.stripKeyword hkey
  unfold Grammar.readOuterProjection
  refine .ite (by rw [h.isEmpty_eq]) (.ok rfl) ?_
  generalize Grammar.stripKeyword "AS" a = r at has ⊢
  generalize Grammar.stripKeyword "AS" b = r' at has ⊢
  cases has with
  | none => exact .error
  | @some columns columns' hcolumns =>
    have hread := hcolumns.readProjection
    refine .ite Iff.rfl .error ?_
    generalize Grammar.readProjection columns = p at hread ⊢
    cases p with
    | error e => exact .error
    | ok projection =>
      obtain ⟨_, hread', rfl⟩ := hread projection rfl
      rw [hread']
      exact .ok rfl

theorem readPart (h : Variant opened a b) {outer : Option Aggregation} :
    FollowsUpTo Statement.foldKinds (readPart catalog outer a) (readPart catalog outer b) := by
  have hgroup := h.splitGroup
  unfold Grammar.readPart
  generalize Grammar.splitGroup a = r at hgroup ⊢
  generalize Grammar.splitGroup b = r' at hgroup ⊢
  cases hgroup with
  | none => exact .error
  | @some r r' hhalves =>
    obtain ⟨inside, behind⟩ := r
    obtain ⟨inside', behind'⟩ := r'
    obtain ⟨hinside, hbehind⟩ := hhalves
    dsimp only at hinside hbehind ⊢
    have hinner := hinside.trim
    generalize Text.trim inside = s at hinner ⊢
    generalize Text.trim inside' = t at hinner ⊢
    by_cases hcall : Grammar.splitAggregation s = none ∧ StartsCall s
    · -- no expression begins like this
      obtain ⟨hnone, hcall⟩ := hcall
      have has : IsKeyword "AS".toList := by decide
      have haggregation : Grammar.readInnerAggregation outer s a = .ok (outer, s) := by
        rw [Grammar.readInnerAggregation, hnone]
      have hprojection : Grammar.readInnerProjection s = .ok (none, s) := by
        rw [Grammar.readInnerProjection, hcall.stripKeyword_eq_none has]
      obtain ⟨e, he⟩ := hcall.readExpression catalog
      rw [haggregation, ok_bind, hprojection, ok_bind, he]
      cases Grammar.readOuterProjection none (Text.trim behind) a <;> exact .error
    · refine (hinner.readInnerAggregation fun hnone hstarts => hcall ⟨hnone, hstarts⟩).bind ?_
      rintro ⟨aggregation, rest⟩ ⟨aggregation', rest'⟩ - ⟨rfl, hrest⟩
      refine hrest.readInnerProjection.bind ?_
      rintro ⟨projection, rest⟩ ⟨projection', rest'⟩ - ⟨rfl, hrest⟩
      refine hbehind.trim.readOuterProjection.bind ?_
      rintro projection _ - rfl
      exact hrest.readExpression.map fun _ _ he => by
        rw [Statement.foldKinds, Statement.foldKinds, he]

end Variant

/-! ### Segments -/

theorem map_mapLast {f g : Statement → Statement} {forget : Statement → Statement}
    (hforget : ∀ s, forget (f s) = g (forget s)) (statements : List Statement) :
    (mapLast f statements).map forget = mapLast g (statements.map forget) := by
  fun_induction mapLast f statements with
  | case1 => rfl
  | case2 s => rw [List.map_singleton, List.map_singleton, hforget, mapLast]
  | case3 s rest hne ih =>
    obtain ⟨t, ts, rfl⟩ := List.exists_cons_of_ne_nil hne
    rw [List.map_cons, ih]
    rfl

namespace Variant

theorem readBindingKey (h : Variant opened a b) {segment segment' : List Char} :
    Follows (Leaving Eq) (readBindingKey a segment)
      (readBindingKey b segment') := by
  unfold Grammar.readBindingKey
  split
  · obtain ⟨_, rfl, h'⟩ := h.exists_of_cons (by decide)
    obtain ⟨hname, hrest⟩ := h'.takeName
    exact .ite (iff_of_eq (congrArg (·.isEmpty = true) hname.symm)) .error
      (.ok ⟨congrArg (some ∘ String.ofList) hname.symm, hrest⟩)
  · rename_i hdot
    split
    · obtain ⟨_, rfl, -⟩ := h.exists_of_cons_right (by decide)
      exact absurd rfl (hdot _)
    · exact .ok ⟨rfl, h.loosen⟩

theorem readBinding (h : Variant opened a b) :
    Follows (Leaving Eq) (readBinding a)
      (readBinding b) := by
  have hdollar : ¬IsClosing '$' := by decide
  obtain ⟨x, y, rfl, rfl, h'⟩ | ⟨ha, hb⟩ := h.cases_head hdollar
  · obtain ⟨hname, hrest⟩ := h'.takeName
    rw [Grammar.readBinding, Grammar.readBinding]
    dsimp only
    rw [hname]
    refine .ite Iff.rfl .error (.ite Iff.rfl .error (hrest.readBindingKey.bind ?_))
    rintro ⟨key, rest⟩ ⟨key', rest'⟩ - ⟨rfl, hrest⟩
    have htrim := hrest.trimStart
    dsimp only
    generalize Text.trimStart rest = s at htrim ⊢
    generalize Text.trimStart rest' = t at htrim ⊢
    split
    · obtain ⟨_, rfl, h''⟩ := htrim.exists_of_cons (by decide)
      exact .ok ⟨rfl, h''.trim⟩
    · exact .error
  · rw [Grammar.readBinding, Grammar.readBinding]
    · exact .ok ⟨rfl, h.loosen⟩
    · exact hb
    · exact ha

theorem readSegment (h : Variant opened a b) :
    FollowsUpTo (List.map Statement.foldKinds) (readSegment catalog a) (readSegment catalog b) := by
  unfold Grammar.readSegment
  refine h.readBinding.bind ?_
  rintro ⟨binding, body⟩ ⟨binding', body'⟩ - ⟨rfl, hbody⟩
  dsimp only at hbody ⊢
  have hbar : KindBlind (· == '|') := rfl
  obtain ⟨hquery, hstages⟩ := hbody.splitTop hbar
  refine (Follows.mapM_upTo hstages fun _ _ h => h.readStage).bind ?_
  intro stages stages' _ hstages
  have hparts := hquery.trim.splitParts
  generalize Grammar.splitParts (Text.trim (Grammar.splitTop '|' body).1) = p at hparts ⊢
  generalize Grammar.splitParts (Text.trim (Grammar.splitTop '|' body').1) = q at hparts ⊢
  obtain ⟨front, parts⟩ := p
  obtain ⟨front', parts'⟩ := q
  obtain ⟨hfront, hparts⟩ := hparts
  dsimp only at hfront hparts ⊢
  cases hparts with
  | nil => exact .error
  | cons hfirst hrest =>
    refine hfront.trim.readAggregation.bind ?_
    rintro outer _ - rfl
    refine hfirst.trim.readPart.bind fun first first' _ hfirst => ?_
    refine (Follows.mapM_upTo hrest fun _ _ h => h.trim.readPart).map fun rest rest' hrest => ?_
    -- the name and the stages go to the last statement
    have hlast : ∀ (stages : List StageCall) (statements : List Statement),
        (mapLast (fun s => { s with
            name := binding.map Binding.name
            targetKey := binding.bind Binding.key
            stages := stages }) statements).map Statement.foldKinds =
          mapLast (fun s => { s with
            name := binding.map Binding.name
            targetKey := binding.bind Binding.key
            stages := stages.map StageCall.foldKinds }) (statements.map Statement.foldKinds) :=
      fun _ => map_mapLast fun _ => rfl
    rw [hlast, hlast, hstages, List.map_cons, List.map_cons, hfirst, hrest]

/-- **A text is read like its variants**: where it is read they are, as the same statements
up to the kinds of closing brackets in the texts of these. -/
theorem readStatements (h : Variant opened a b) :
    FollowsUpTo (List.map Statement.foldKinds) (readStatements catalog a)
      (readStatements catalog b) := by
  have hsemicolon : KindBlind (· == ';') := rfl
  unfold Grammar.readStatements
  rw [h.isBalanced_eq]
  refine .ite Iff.rfl .error ?_
  have hsegments : List.Forall₂ (Variant false)
      (((Grammar.splitTop ';' a).toList.map Text.trim).filter fun s => !s.isEmpty)
      (((Grammar.splitTop ';' b).toList.map Text.trim).filter fun s => !s.isEmpty) :=
    List.rel_filter (fun _ _ h => by simp only [h.isEmpty_eq])
      (List.rel_map (fun _ _ h => h.trim) (h.splitTop hsemicolon).toList)
  refine (Follows.mapM_upTo hsegments fun _ _ h => h.readSegment).map fun _ _ hstatements => ?_
  rw [List.map_flatten, List.map_flatten, hstatements]

end Variant

end Grammar

end TableQuery
