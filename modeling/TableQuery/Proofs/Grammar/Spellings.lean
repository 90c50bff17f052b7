import TableQuery.Proofs.Grammar.Balance
import TableQuery.Proofs.Grammar.Parts

/-!
# The spellings of a part

An aggregation may stand in front of the brackets of a part or first inside them, and a
projection right behind that or behind the brackets. Which of these places a user takes
makes no difference: the four texts of `TableQuery.spellings` are read as the same one
statement (`TableQuery.parse_spellings`), for every expression that can be read, every
spelling of the keyword and every spelling of the columns.

What has to agree is where the columns end. Inside the brackets they are followed to the
last name behind a comma, with nothing in between that says where the expression begins;
behind the brackets they are all that is left. An expression begins with a parenthesis or
a letter (`TableQuery.Grammar.begins_of_readExpression`), so the list never goes on into
it.
-/

namespace TableQuery

namespace Grammar

open Text

/-! ### Columns -/

/-- The text is a list of the names: commas between them, and any blanks around each comma. -/
inductive Lists : List String → List Char → Prop
  | last {name : String} : IsName name → Lists [name] name.toList
  | more {name : String} {names : List String} {before behind text : List Char} :
      IsName name → (∀ c ∈ before, isBlank c = true) → (∀ c ∈ behind, isBlank c = true) →
        Lists names text → Lists (name :: names) (name.toList ++ before ++ ',' :: (behind ++ text))

/-- The text denotes the projection: a star, or a list of names. -/
inductive Spells : List Char → Projection → Prop
  | star : Spells ['*'] .all
  | names {names : List String} {text : List Char} :
      Lists names text → Spells text (projectionOf names)

namespace Lists

variable {names : List String} {text : List Char}

theorem ne_nil (h : Lists names text) : names ≠ [] := by
  cases h <;> exact List.cons_ne_nil _ _

theorem isName (h : Lists names text) : ∀ name ∈ names, IsName name := by
  induction h with
  | last hname => exact fun n hn => by rwa [List.mem_singleton.mp hn]
  | more hname _ _ _ ih =>
    intro n hn
    rcases List.mem_cons.mp hn with rfl | hn
    · exact hname
    · exact ih n hn

theorem startsSolid (h : Lists names text) : StartsSolid text := by
  cases h with
  | last hname => exact startsSolid_name hname
  | more hname => exact ((startsSolid_name hname).append _).append _

theorem endsSolid (h : Lists names text) : EndsSolid text := by
  induction h with
  | last hname => exact endsSolid_name hname
  | @more name names before behind text _ _ _ _ ih =>
    rw [← List.cons_append, ← List.append_assoc]
    exact ih.append _

theorem of_mem (h : Lists names text) {c : Char} (hc : c ∈ text) :
    isNameChar c = true ∨ isBlank c = true ∨ c = ',' := by
  induction h with
  | last hname => exact .inl ((isName_iff.mp hname).2 c hc)
  | more hname hbefore hbehind _ ih =>
    simp only [List.mem_append, List.mem_cons] at hc
    rcases hc with (hc | hc) | rfl | hc | hc
    · exact .inl ((isName_iff.mp hname).2 c hc)
    · exact .inr (.inl (hbefore c hc))
    · exact .inr (.inr rfl)
    · exact .inr (.inl (hbehind c hc))
    · exact ih hc

/-- The pieces between the commas are the names with blanks around them. -/
theorem map_trim_splitOn (h : Lists names text) {front : List Char}
    (hfront : ∀ c ∈ front, isBlank c = true) :
    (splitOn ',' (front ++ text)).toList.map trim = names.map String.toList := by
  have hpiece : ∀ {name : String} {front back : List Char}, IsName name →
      (∀ c ∈ front, isBlank c = true) → (∀ c ∈ back, isBlank c = true) →
        trim (front ++ name.toList ++ back) = name.toList ∧
          ∀ c ∈ front ++ name.toList ++ back, c ≠ ',' := by
    intro name front back hname hfront hback
    refine ⟨trim_between hfront hback (startsSolid_name hname) (endsSolid_name hname), ?_⟩
    rintro c hc rfl
    rcases List.mem_append.mp hc with hc | hc
    · rcases List.mem_append.mp hc with hc | hc
      · exact absurd (hfront _ hc) (by decide)
      · exact absurd ((isName_iff.mp hname).2 _ hc) (by decide)
    · exact absurd (hback _ hc) (by decide)
  induction h generalizing front with
  | @last name hname =>
    obtain ⟨htrim, hcomma⟩ := hpiece hname hfront (List.forall_mem_nil _)
    rw [List.append_nil] at htrim hcomma
    rw [← List.append_nil (front ++ name.toList), splitOn_append [] hcomma]
    simp [splitOn, Pieces.growAll, Pieces.toList, htrim]
  | @more name names before behind text hname hbefore hbehind _ ih =>
    obtain ⟨htrim, hcomma⟩ := hpiece hname hfront hbefore
    have hcut : splitOn ',' (',' :: (behind ++ text)) = (splitOn ',' (behind ++ text)).cut := by
      rw [splitOn, if_pos (beq_self_eq_true _)]
    rw [← List.append_assoc, ← List.append_assoc, splitOn_append _ hcomma, hcut]
    simp only [Pieces.growAll, Pieces.cut, Pieces.toList, List.append_nil, List.map_cons, htrim]
    exact congrArg _ (ih hbehind)

/-- **The list ends where no comma follows**, by induction on the list. -/
theorem afterColumns_append (h : Lists names text) {rest : List Char} (hends : EndsName rest)
    (hrest : (trimStart rest).head? ≠ some ',') : afterColumns (text ++ rest) = rest := by
  induction h with
  | last hname =>
    have htake := takeName_append_of_endsName (isName_iff.mp hname).2 hends
    rw [afterColumns, htake]
    split
    · rename_i next hcomma
      rw [hcomma] at hrest
      exact absurd rfl hrest
    · rfl
  | @more name names before behind text hname hbefore hbehind htext ih =>
    have hbetween : EndsName (before ++ ',' :: (behind ++ text ++ rest)) := by
      cases before with
      | nil => exact endsName_cons rfl _
      | cons c cs =>
        refine endsName_cons (Bool.eq_false_iff.mpr fun hc => ?_) _
        have hblank := hbefore c (List.mem_cons_self ..)
        rw [isBlank_of_isNameChar hc] at hblank
        cases hblank
    have htake := takeName_append_of_endsName (isName_iff.mp hname).2 hbetween
    have hcomma : trimStart (before ++ ',' :: (behind ++ text ++ rest)) =
        ',' :: (behind ++ text ++ rest) := by
      rw [trimStart_append_of_isBlank hbefore]
      rfl
    have hnext : trimStart (behind ++ text ++ rest) = text ++ rest := by
      rw [List.append_assoc, trimStart_append_of_isBlank hbehind]
      exact trimStart_of_startsSolid (htext.startsSolid.append rest)
    have heq : name.toList ++ before ++ ',' :: (behind ++ text) ++ rest =
        name.toList ++ (before ++ ',' :: (behind ++ text ++ rest)) := by
      simp
    rw [heq, afterColumns, htake]
    split
    · rename_i next hnext'
      rw [hcomma] at hnext'
      rw [← (List.cons.inj hnext').2, hnext, ih]
    · rename_i hnone
      exact absurd hcomma (hnone _)

end Lists

namespace Spells

variable {text : List Char} {p : Projection}

theorem solid (h : Spells text p) : StartsSolid text ∧ EndsSolid text := by
  cases h with
  | star => exact ⟨⟨'*', [], rfl, rfl⟩, ⟨'*', [], rfl, rfl⟩⟩
  | names hlist => exact ⟨hlist.startsSolid, hlist.endsSolid⟩

theorem nested (h : Spells text p) : Nested Joins text := by
  cases h with
  | star => exact .of_mem (by decide)
  | names hlist =>
    refine .of_mem fun c hc => ?_
    rcases hlist.of_mem hc with hname | hblank | rfl
    · exact ⟨isPlain_of_isNameChar hname, joins_of_isNameChar hname⟩
    · refine ⟨isPlain_of_isBlank hblank, ?_, ?_, ?_⟩ <;> rintro rfl <;> cases hblank
    · decide

/-- **The text is read as what it denotes.** -/
theorem readProjection (h : Spells text p) : Grammar.readProjection text = .ok p := by
  have htrim := trim_of_solid h.solid.1 h.solid.2
  cases h with
  | star => rfl
  | names hlist =>
    refine readProjection_of_splitOn hlist.ne_nil hlist.isName ?_ ?_ <;> rw [htrim]
    · rintro rfl
      rcases hlist.of_mem (List.mem_singleton_self '*') with hc | hc | hc <;> cases hc
    · exact hlist.map_trim_splitOn (List.forall_mem_nil _)

/-- **The text is split off the front** of what does not go on with it. -/
theorem splitProjection_append (h : Spells text p) {rest : List Char} (hends : EndsName rest)
    (hrest : (trimStart rest).head? ≠ some ',') :
    splitProjection (text ++ rest) = (text, rest) := by
  have hlength : (text ++ rest).take ((text ++ rest).length - rest.length) = text := by
    rw [List.length_append, Nat.add_sub_cancel_right, List.take_left]
  unfold splitProjection
  extract_lets behind
  have hbehind : behind = rest := by
    cases h with
    | star => rfl
    | names hlist =>
      simp only [behind, trimStart_of_startsSolid (hlist.startsSolid.append rest)]
      split
      · rename_i star hstar
        obtain ⟨c, cs, rfl, -⟩ := hlist.startsSolid
        obtain rfl := (List.cons.inj hstar).1
        rcases hlist.of_mem (List.mem_cons_self ..) with hc | hc | hc <;> cases hc
      · exact hlist.afterColumns_append hends hrest
  rw [hbehind]
  exact Prod.ext hlength rfl

end Spells

/-! ### Aggregations -/

/-- The text is the call of an aggregation with a blank behind it, its keyword in any case, or
empty where there is no aggregation. -/
inductive Calls : Option Aggregation → List Char → Prop
  | absent : Calls none []
  | keyword {a : Aggregation} {word : List Char} :
      sameIgnoringCase word a.keyword.toList = true → Calls (some a) (word ++ "() ".toList)

namespace Calls

variable {aggregation : Option Aggregation} {call : List Char}

theorem nested (h : Calls aggregation call) : Nested Joins call := by
  cases h with
  | absent => exact .nil
  | @keyword a word hword =>
    have hname := isNameChar_of_sameIgnoringCase hword (isNameChar_of_mem_keyword a)
    have hparens : Nested Joins ('(' :: ([] ++ ')' :: [' '])) :=
      .group (Or.inl rfl) (Or.inl rfl) (by decide) .nil (.of_mem (by decide))
    exact (Nested.of_isNameChar hname fun _ => joins_of_isNameChar).append hparens

/-- The keyword begins with a letter. -/
theorem exists_cons {a : Aggregation} {word : List Char}
    (h : sameIgnoringCase word a.keyword.toList = true) :
    ∃ c rest, word = c :: rest ∧ isNameChar c = true := by
  have hname := isNameChar_of_sameIgnoringCase h (isNameChar_of_mem_keyword a)
  cases word with
  | nil => cases a <;> cases h
  | cons c rest => exact ⟨c, rest, rfl, hname c (List.mem_cons_self ..)⟩

theorem startsSolid (h : Calls aggregation call) : call = [] ∨ StartsSolid call := by
  cases h with
  | absent => exact .inl rfl
  | keyword hword =>
    obtain ⟨c, rest, rfl, hc⟩ := exists_cons hword
    exact .inr ⟨c, _, rfl, isBlank_of_isNameChar hc⟩

theorem head_ne (h : Calls aggregation call) : call.head? ≠ some '$' := by
  cases h with
  | absent => simp
  | keyword hword =>
    obtain ⟨c, rest, rfl, hc⟩ := exists_cons hword
    simpa using ne_of_isNameChar hc (show isNameChar '$' = false from rfl)

/-- **In front of the brackets** the call stands alone. -/
theorem readAggregation (h : Calls aggregation call) :
    Grammar.readAggregation (trim call) = .ok aggregation := by
  cases h with
  | absent => rfl
  | @keyword a word hword =>
    obtain ⟨c, rest, rfl, hc⟩ := exists_cons hword
    have htrim : trim ([] ++ (c :: rest ++ ['(', ')']) ++ [' ']) = c :: rest ++ ['(', ')'] :=
      trim_between (by simp) (by decide) ⟨c, _, rfl, isBlank_of_isNameChar hc⟩
        ⟨')', c :: rest ++ ['('], by simp, rfl⟩
    have htext : c :: rest ++ "() ".toList = [] ++ (c :: rest ++ ['(', ')']) ++ [' '] := by simp
    rw [htext, htrim, Grammar.readAggregation, splitAggregation_call hword]
    rfl

/-- **Inside the brackets** the call stands in front of what does not begin with one. -/
theorem readInnerAggregation (h : Calls aggregation call) {inside : List Char}
    (hne : trim inside ≠ []) (hnone : splitAggregation (trim inside) = none) (part : List Char) :
    Grammar.readInnerAggregation none (trim (call ++ inside)) part =
      .ok (aggregation, trim inside) := by
  cases h with
  | absent => rw [List.nil_append, Grammar.readInnerAggregation, hnone]
  | @keyword a word hword =>
    have hsolid : StartsSolid (word ++ "() ".toList) := by
      obtain ⟨c, rest, rfl, hc⟩ := exists_cons hword
      exact ⟨c, _, rfl, isBlank_of_isNameChar hc⟩
    have htext : word ++ "() ".toList ++ trimEnd inside =
        word ++ '(' :: ')' :: ' ' :: trimEnd inside := by
      simp
    rw [trim_append hsolid hne, htext, Grammar.readInnerAggregation, splitAggregation_call hword,
      trimStart_cons_of_isBlank rfl, trimStart_trimEnd hne]
    rfl

end Calls

/-! ### Both places of the projection -/

/-- What stands in the brackets of a part and what stands behind them together denote an
expression and a projection, and say nothing of an aggregation. -/
structure Denotes (catalog : Catalog) (inside behind : List Char) (e : Expression)
    (p : Projection) : Prop where
  balanced : Balanced inside
  ne_nil : trim inside ≠ []
  no_aggregation : splitAggregation (trim inside) = none
  nested : Nested Joins behind
  endsSolid : behind = [] ∨ EndsSolid behind
  reads : ∀ part, ∃ within rest, readInnerProjection (trim inside) = .ok (within, rest) ∧
    readOuterProjection within (trim behind) part = .ok (some p) ∧
      readExpression catalog rest = .ok e

section Places

variable {catalog : Catalog} {e : Expression} {columns text : List Char} {p : Projection}

theorem trim_ne_nil_of_readExpression (he : readExpression catalog text = .ok e) :
    trim text ≠ [] := by
  obtain ⟨c, rest, htext, -⟩ := begins_of_readExpression he
  rw [htext]
  exact List.cons_ne_nil _ _

/-- **The projection in front of the expression** ends where the expression begins. -/
theorem Denotes.leading (he : readExpression catalog text = .ok e) (hcolumns : Spells columns p) :
    Denotes catalog ("AS ".toList ++ (columns ++ ' ' :: text)) [] e p := by
  have hne := trim_ne_nil_of_readExpression he
  have hbalanced : Balanced (' ' :: text) :=
    Balanced.append (a := [' ']) (.of_isPlain (by decide)) (balanced_of_readExpression he)
  have htrim : trim ("AS ".toList ++ (columns ++ ' ' :: text)) =
      "AS".toList ++ ' ' :: (columns ++ ' ' :: trimEnd text) := by
    have heq : "AS ".toList ++ (columns ++ ' ' :: text) =
        "AS ".toList ++ (columns ++ [' ']) ++ text := by
      simp
    have hstart : StartsSolid ("AS ".toList ++ (columns ++ [' '])) := ⟨'A', _, rfl, rfl⟩
    rw [heq, trim_append hstart hne]
    simp
  have has : stripKeyword "AS" ("AS".toList ++ ' ' :: (columns ++ ' ' :: trimEnd text)) =
      some (columns ++ ' ' :: trimEnd text) :=
    stripKeyword_as_append (hcolumns.solid.1.append _)
  have hbehind : trimStart (' ' :: trimEnd text) = trim text := by
    rw [trimStart_cons_of_isBlank rfl, trimStart_trimEnd hne]
  have hsplit : splitProjection (columns ++ ' ' :: trimEnd text) =
      (columns, ' ' :: trimEnd text) := by
    refine hcolumns.splitProjection_append (endsName_cons rfl _) ?_
    -- an expression does not begin with a comma
    obtain ⟨c, rest, hbegins, hc⟩ := begins_of_readExpression he
    rw [hbehind, hbegins]
    rintro ⟨⟩
    revert hc
    decide
  have hexpression : readExpression catalog (' ' :: trimEnd text) = .ok e := by
    rw [← he]
    refine readExpression_congr ?_
    rw [trim, hbehind, trimEnd_of_endsSolid (solid_trim hne).2]
  refine ⟨(Balanced.of_isPlain (by decide)).append (hcolumns.nested.balanced.append hbalanced),
    ?_, ?_, .nil, .inl rfl, fun part => ⟨some p, _, ?_, rfl, hexpression⟩⟩
  · rw [htrim]
    exact List.cons_ne_nil _ _
  · have hnone : Aggregation.ofKeyword? "AS".toList = none := by decide
    rw [htrim, splitAggregation,
      takeName_append_of_endsName (by decide) (endsName_cons rfl _)]
    simp only [hnone]
  · rw [htrim, readInnerProjection, has]
    simp only [hsplit, hcolumns.readProjection]
    rfl

/-- **The projection behind the brackets** is all that stands there. -/
theorem Denotes.trailing (he : readExpression catalog text = .ok e) (hcolumns : Spells columns p) :
    Denotes catalog text (" AS ".toList ++ columns) e p := by
  obtain ⟨hstart, hend⟩ := hcolumns.solid
  have hbegins := begins_of_readExpression he
  have hne := trim_ne_nil_of_readExpression he
  have htrim := trim_of_solid (solid_trim hne).1 (solid_trim hne).2
  refine ⟨balanced_of_readExpression he, hne, hbegins.splitAggregation,
    Nested.append (.of_mem (by decide)) hcolumns.nested, .inr (hend.append _), fun part =>
      ⟨none, trim text, ?_, readOuterProjection_as hstart hend hcolumns.readProjection part, ?_⟩⟩
  · rw [readInnerProjection, hbegins.stripKeyword_as]
  · rw [readExpression_congr htrim, he]

/-! ### Both places of the aggregation -/

variable {inside behind call : List Char} {outer aggregation : Option Aggregation}

theorem Denotes.readPart (h : Denotes catalog inside behind e p) {written : List Char}
    (hbalanced : Balanced written) (haggregation : ∀ part,
      readInnerAggregation outer (trim written) part = .ok (aggregation, trim inside)) :
    Grammar.readPart catalog outer (bracketed [] written behind) =
      .ok { expression := e, aggregation := aggregation, projection := p } := by
  have hgroup : splitGroup (bracketed [] written behind) = some (written, behind) :=
    splitGroup_of_balanced (Or.inr rfl) (Or.inr rfl) hbalanced behind
  obtain ⟨within, rest, hinner, houter, hexpression⟩ := h.reads (bracketed [] written behind)
  rw [Grammar.readPart, hgroup]
  simp only [haggregation, hinner, houter, hexpression, ok_bind]
  rfl

/-- **The aggregation in front of the brackets.** -/
theorem Denotes.readStatements_outside (h : Denotes catalog inside behind e p)
    (hcall : Calls aggregation call) :
    readStatements catalog (bracketed call inside behind) =
      .ok [{ expression := e, aggregation := aggregation, projection := p }] := by
  have hinner : ∀ part, readInnerAggregation aggregation (trim inside) part =
      .ok (aggregation, trim inside) := fun part => by
    rw [readInnerAggregation, h.no_aggregation]
  have hpart := h.readPart h.balanced hinner
  rw [readStatements_bracketed hcall.nested hcall.startsSolid hcall.head_ne h.balanced h.nested
    h.endsSolid, hcall.readAggregation]
  simp only [hpart, ok_bind]
  rfl

/-- **The aggregation inside the brackets.** -/
theorem Denotes.readStatements_inside (h : Denotes catalog inside behind e p)
    (hcall : Calls aggregation call) :
    readStatements catalog (bracketed [] (call ++ inside) behind) =
      .ok [{ expression := e, aggregation := aggregation, projection := p }] := by
  have hbalanced := hcall.nested.balanced.append h.balanced
  have hpart := h.readPart hbalanced
    (hcall.readInnerAggregation h.ne_nil h.no_aggregation)
  rw [readStatements_bracketed .nil (.inl rfl) (by decide) hbalanced h.nested h.endsSolid,
    show Grammar.readAggregation (trim []) = .ok none from rfl]
  simp only [hpart, ok_bind]
  rfl

end Places

end Grammar

open Grammar Text

/-- The four spellings of a part: the projection in front of the expression or behind the
brackets, and the call of the aggregation inside the brackets or in front of them. -/
def spellings (call columns text : String) : List String :=
  ["[" ++ call ++ "AS " ++ columns ++ " " ++ text ++ "]",
    call ++ "[AS " ++ columns ++ " " ++ text ++ "]",
    "[" ++ call ++ text ++ "] AS " ++ columns,
    call ++ "[" ++ text ++ "] AS " ++ columns]

/-- **The four spellings of a part agree.** Whatever text is read as an expression, and
however the columns and the keyword of the aggregation are written, all four are read as one
statement with this expression, this aggregation, or none, and this projection. -/
theorem parse_spellings {catalog : Catalog} {e : Expression} {aggregation : Option Aggregation}
    {p : Projection} {call columns text : String}
    (htext : readExpression catalog text.toList = .ok e) (hcall : Calls aggregation call.toList)
    (hcolumns : Spells columns.toList p) :
    ∀ spelling ∈ spellings call columns text,
      parse catalog spelling =
        .ok [{ expression := e, aggregation := aggregation, projection := p }] := by
  have hleading := Denotes.leading htext hcolumns
  have htrailing := Denotes.trailing htext hcolumns
  simp only [spellings, List.forall_mem_cons, List.not_mem_nil, false_implies, implies_true,
    and_true, parse]
  refine ⟨?_, ?_, ?_, ?_⟩
  · rw [← hleading.readStatements_inside hcall]
    simp [bracketed]
  · rw [← hleading.readStatements_outside hcall]
    simp [bracketed]
  · rw [← htrailing.readStatements_inside hcall]
    simp [bracketed]
  · rw [← htrailing.readStatements_outside hcall]
    simp [bracketed]

/-- A negation in parentheses whose literal looks like the end of the brackets, and a keyword
and columns that are not written as they are printed. -/
theorem parse_spellings_count :
    let text := " (not Where users:name (\"] AS *\")) AND NOT Where users <- posts "
    let e : Expression := .and
      (.not (.atom (.condition "users" (some ["name"]) (.text "] AS " false .startsWith))))
      (.not (.atom (.relation .backward "users" "posts")))
    readExpression .blog text.toList = .ok e ∧ Calls (some .count) "Count() ".toList ∧
      Spells "id ,\tname".toList (.columns ["id", "name"]) ∧
      ∀ spelling ∈ spellings "Count() " "id ,\tname" text, parse .blog spelling =
        .ok [{ expression := e, aggregation := some .count
               projection := .columns ["id", "name"] }] := by
  intro text e
  have htext : readExpression .blog text.toList = .ok e := by decide +kernel
  have hkeyword : sameIgnoringCase "Count".toList Aggregation.count.keyword.toList = true := by
    decide
  have hcall : Calls (some .count) "Count() ".toList := .keyword hkeyword
  have hlist : Lists ["id", "name"]
      ("id".toList ++ [' '] ++ ',' :: (['\t'] ++ "name".toList)) :=
    .more (by decide) (by decide) (by decide) (.last (by decide))
  have hcolumns : Spells "id ,\tname".toList (.columns ["id", "name"]) := .names hlist
  exact ⟨htext, hcall, hcolumns, parse_spellings htext hcall hcolumns⟩

end TableQuery
