import TableQuery.Proofs.Grammar.Parts

/-!
# Asking a table for a text

The shortest question is a table with a quoted text in brackets, and a program that puts
questions together from what users type writes just that. Two things could go wrong with
it: the text could end its quotes early and go on as a part of the query, or the name of
the table could mean something else to the reader.

The first never happens. Behind the quotes of `TableQuery.Grammar.writeQuoted` any text
is one word in parentheses, so no cut falls into it and it is read back as it was. The
second happens to the two words that join operands: a catalog may have a table `or`, and
the keyword is looked for before the atom is
(`TableQuery.Grammar.splitKeyword_lookupWords`). All other tables can be asked
(`TableQuery.parse_lookup`).
-/

namespace TableQuery

namespace Grammar

open Text

variable {catalog : Catalog}

/-! ### One part in brackets -/

/-- A part in brackets, without aggregation and projection, is read as the expression in
them. -/
theorem readPart_brackets {inside : List Char} (hnested : Nested (fun _ => True) inside)
    (htrim : trim inside = inside) (haggregation : splitAggregation inside = none)
    (has : stripKeyword "AS" inside = none) :
    readPart catalog none ('[' :: inside ++ [']']) =
      (do return { expression := ← readExpression catalog inside }) := by
  have hgroup : splitGroup ('[' :: inside ++ [']']) = some (inside, []) :=
    splitGroup_append (Or.inr rfl) (Or.inr rfl) hnested []
  have hinner : readInnerAggregation none inside ('[' :: inside ++ [']']) = .ok (none, inside) := by
    rw [readInnerAggregation, haggregation]
  have hprojection : readInnerProjection inside = .ok (none, inside) := by
    rw [readInnerProjection, has]
  rw [readPart]
  simp only [hgroup, htrim, hinner, ok_bind, hprojection]
  rfl

/-- A text that is one such part is a statement without a name and without stages. -/
theorem readStatements_brackets {inside : List Char} (hnested : Nested (fun _ => True) inside)
    (htrim : trim inside = inside) (haggregation : splitAggregation inside = none)
    (has : stripKeyword "AS" inside = none) :
    readStatements catalog ('[' :: inside ++ [']']) =
      (do return [{ expression := ← readExpression catalog inside }]) := by
  have htext : '[' :: inside ++ [']'] = bracketed [] inside [] := rfl
  rw [htext, readStatements_bracketed .nil (Or.inl rfl) (by decide) hnested.balanced .nil
    (Or.inl rfl), show readAggregation (trim []) = .ok none from rfl, ← htext]
  simp only [ok_bind, readPart_brackets hnested htrim haggregation has]
  cases readExpression catalog inside <;> rfl

/-! ### The words of the question -/

/-- The words of the question for a text in a table. -/
def lookupWords (table : String) (text : List Char) : List (List Char) :=
  ["Where".toList, table.toList, '(' :: writeQuoted text ++ [')']]

section Words

variable {table : String} (text : List Char)

theorem begins_lookupWords : Begins (lookupWords table text) :=
  ⟨_, _, rfl, Or.inl rfl⟩

/-- Whatever the text holds, its literal is one word. -/
theorem word_of_mem_lookupWords (hname : IsName table) :
    ∀ w ∈ lookupWords table text, Word w := by
  have hname' := isName_iff.mp hname
  intro w hw
  simp only [lookupWords, List.mem_cons, List.not_mem_nil, or_false] at hw
  rcases hw with rfl | rfl | rfl
  · exact word_where
  · exact .of_isNameChar hname'.1 hname'.2
  · exact .group (.writeQuoted text trivial)

theorem trim_lookupWords : trim (unwords (lookupWords table text)) =
    unwords (lookupWords table text) := by
  have hends : EndsSolid (spaced [table.toList, '(' :: writeQuoted text ++ [')']]) :=
    ⟨')', ' ' :: table.toList ++ ' ' :: '(' :: writeQuoted text, by simp [spaced], rfl⟩
  exact trim_of_solid (begins_lookupWords text).startsSolid (hends.append _)

/-- The question begins with its keyword, which is no aggregation. -/
theorem splitAggregation_lookupWords :
    splitAggregation (unwords (lookupWords table text)) = none := by
  have hnone : Aggregation.ofKeyword? "Where".toList = none := by decide
  rw [splitAggregation, lookupWords, unwords,
    takeName_append_of_endsName (by decide) (endsName_spaced _)]
  simp only [hnone]

/-- A word of the question is a keyword only if it is the table. -/
theorem free_lookupWords {keyword : String} (hkey : IsKeyword keyword.toList)
    (hwhere : sameIgnoringCase "Where".toList keyword.toList = false)
    (htable : sameIgnoringCase table.toList keyword.toList = false) :
    Free keyword (lookupWords table text) := by
  intro w hw
  simp only [lookupWords, List.mem_cons, List.not_mem_nil, or_false] at hw
  rcases hw with rfl | rfl | rfl
  · exact hwhere
  · exact htable
  · exact sameIgnoringCase_of_head hkey rfl

/-- **A table spelled like a keyword is cut out** of the question for it. -/
theorem splitKeyword_lookupWords {keyword : String} (hkey : IsKeyword keyword.toList)
    (hname : IsName table) (htable : sameIgnoringCase table.toList keyword.toList = true) :
    splitKeyword keyword (unwords (lookupWords table text)) =
      ("Where".toList, [spaced ['(' :: writeQuoted text ++ [')']]]) := by
  have hwords := word_of_mem_lookupWords text hname
  have hgroup : sameIgnoringCase ('(' :: writeQuoted text ++ [')']) keyword.toList = false :=
    sameIgnoringCase_of_head hkey rfl
  rw [lookupWords, splitKeyword_unwords_cons word_where,
    splitKeywordFrom_spaced_cons hkey (hwords _ (by simp [lookupWords])), htable,
    splitKeywordFrom_spaced_of_free hkey (fun w hw => hwords w (by simp_all [lookupWords]))
      (by simpa [Free] using hgroup)]
  rfl

end Words

/-! ### Reading the question -/

section Reading

variable {table : String} (text : List Char)

/-- **The question for a table** that is not spelled like a connective. -/
theorem readExpression_lookupWords (hname : IsName table) (h : catalog.Writes table) :
    readExpression catalog (unwords (lookupWords table text)) =
      .ok (.atom (.condition table none (textLiteral text false))) := by
  obtain ⟨htable, hand, hor⟩ := h
  have hwords := word_of_mem_lookupWords text hname
  have hbegins : Begins (lookupWords table text) := begins_lookupWords text
  have hne : trim (unwords (lookupWords table text)) ≠ [] := by
    rw [trim_lookupWords]
    exact List.cons_ne_nil _ _
  have hnot : stripKeyword "NOT" (trim (unwords (lookupWords table text))) = none := by
    rw [trim_lookupWords]
    exact hbegins.stripKeyword_eq_none (by decide) (by decide) hwords
  have hgroup : unwrapGroup '(' (trim (unwords (lookupWords table text))) = none := by
    rw [trim_lookupWords]
    exact unwrapGroup_of_ne (by decide) _
  have hliteral : readLiteral (writeQuoted text) = .ok (textLiteral text false) := by
    simpa using readLiteral_writeQuoted text false
  have hatom : readAtom catalog (unwords (lookupWords table text)) =
      .ok (.condition table none (textLiteral text false)) := by
    have hcolumns : ∀ names ∈ (none : Option (List String)),
        names ≠ [] ∧ ∀ name ∈ names, IsName name := by simp
    have hread := readAtom_group hname htable hcolumns (.writeQuoted text trivial) hliteral
    rwa [show renderColumns none = [] from rfl, List.append_nil] at hread
  rw [readExpression_eq hne hnot, trim_lookupWords,
    readDisjunction_of_free hwords (free_lookupWords text (by decide) (by decide) hor),
    readConjunction_of_free hwords (free_lookupWords text (by decide) (by decide) hand),
    readOperand_atom hne hnot hgroup, trim_lookupWords, hatom]
  rfl

theorem readOperand_where : readOperand catalog "Where".toList =
    .error (.malformed .noTableName "Where") := by
  have htrim : trim "Where".toList = "Where".toList := by decide
  have hne : trim "Where".toList ≠ [] := by decide
  have hnot : stripKeyword "NOT" (trim "Where".toList) = none := by decide
  have hgroup : unwrapGroup '(' (trim "Where".toList) = none := by decide
  rw [readOperand_atom hne hnot hgroup, htrim]
  rfl

/-- **The question for any other table** breaks off where its name should be. -/
theorem readExpression_lookupWords_connective (hname : IsName table)
    (h : sameIgnoringCase table.toList "AND".toList = true ∨
      sameIgnoringCase table.toList "OR".toList = true) :
    readExpression catalog (unwords (lookupWords table text)) =
      .error (.malformed .noTableName "Where") := by
  have hwords := word_of_mem_lookupWords text hname
  have hnot : stripKeyword "NOT" (trim (unwords (lookupWords table text))) = none := by
    rw [trim_lookupWords]
    exact (begins_lookupWords text).stripKeyword_eq_none (by decide) (by decide) hwords
  have hne : trim (unwords (lookupWords table text)) ≠ [] := by
    rw [trim_lookupWords]
    exact List.cons_ne_nil _ _
  rw [readExpression_eq hne hnot, trim_lookupWords]
  by_cases hor : sameIgnoringCase table.toList "OR".toList = true
  · have hfirst : readConjunction catalog "Where".toList =
        .error (.malformed .noTableName "Where") := by
      have hone : splitKeyword "AND" "Where".toList = ("Where".toList, []) := by decide
      rw [readConjunction_eq, hone, readPieces_single, readOperand_where]
    rw [readDisjunction, splitKeyword_lookupWords text (by decide) hname hor]
    exact readPieces_eq_error hfirst
  · have hand := h.resolve_right hor
    rw [readDisjunction_of_free hwords
      (free_lookupWords text (by decide) (by decide) (Bool.eq_false_iff.mpr hor)),
      readConjunction_eq, splitKeyword_lookupWords text (by decide) hname hand]
    exact readPieces_eq_error readOperand_where

end Reading

end Grammar

open Grammar Text

/-- **Which tables can be asked for a text.** In every catalog that was built and for every
text, the question for a table is read as one statement, whose only atom is the condition
that some column of the table matches the text – unless the table is spelled like a
connective, when the question breaks off behind its first word. -/
theorem parse_lookup {catalog : Catalog} (hc : catalog.Built) {table : String}
    (htable : catalog.hasTable table = true) (text : String) :
    parse catalog ("[Where " ++ table ++ " (" ++ String.ofList (writeQuoted text.toList) ++ ")]") =
      if catalog.Writes table then
        .ok [{ expression := .atom (.condition table none
          (.text (String.ofList (splitWildcards text.toList).2) false
            (splitWildcards text.toList).1)) }]
      else .error (.malformed .noTableName "Where") := by
  have hname := hc.isName htable
  have htext : ("[Where " ++ table ++ " (" ++ String.ofList (writeQuoted text.toList) ++
      ")]").toList = '[' :: unwords (lookupWords table text.toList) ++ [']'] := by
    simp [lookupWords, unwords, spaced]
  have hread := @readStatements_brackets catalog _
    (nested_unwords (word_of_mem_lookupWords text.toList hname)) (trim_lookupWords text.toList)
    (splitAggregation_lookupWords text.toList)
    ((begins_lookupWords text.toList).stripKeyword_eq_none (by decide) (by decide)
      (word_of_mem_lookupWords text.toList hname))
  rw [parse, htext, hread]
  split
  · rename_i h
    rw [readExpression_lookupWords text.toList hname h]
    rfl
  · rename_i h
    have hconnective : sameIgnoringCase table.toList "AND".toList = true ∨
        sameIgnoringCase table.toList "OR".toList = true := by
      by_contra hneither
      simp only [not_or, Bool.not_eq_true] at hneither
      exact h ⟨htable, hneither⟩
    rw [readExpression_lookupWords_connective text.toList hname hconnective]
    rfl

/-- A title that tries to close its quotes and its brackets, and to go on with a query of
its own. -/
theorem parse_lookup_posts :
    let title := "*\")]; [Where users (\"7\\"
    let text := "[Where " ++ "posts" ++ " (" ++ String.ofList (writeQuoted title.toList) ++ ")]"
    Catalog.blog.Built ∧ Catalog.blog.hasTable "posts" = true ∧
      text = "[Where posts (\"*\\\")]; [Where users (\\\"7\\\\\")]" ∧
      parse .blog text =
        .ok [{ expression := .atom (.condition "posts" none
          (.text "\")]; [Where users (\"7\\" false .endsWith)) }] := by
  intro title text
  have htable : Catalog.blog.hasTable "posts" = true := by decide
  have hwrites : Catalog.blog.Writes "posts" := by decide
  have hsplit : splitWildcards title.toList =
      (.endsWith, "\")]; [Where users (\"7\\".toList) := by decide +kernel
  have hparse := parse_lookup Catalog.built_blog htable title
  rw [if_pos hwrites, hsplit] at hparse
  exact ⟨Catalog.built_blog, htable, by decide +kernel, hparse⟩

/-- The operating rooms of a hospital. -/
def Catalog.hospital : Catalog where
  tables := [
    { name := "or"
      columns := [⟨"id", .number, false⟩, ⟨"title", .string, false⟩] }]

/-- **A legal table that cannot be asked.** The table `or` is taken for the connective.
Without the blank behind its name the same question is read, but it is printed with the
blank, and so the printed text of a statement that was read is refused. -/
theorem not_parse_lookup_or :
    let rooms : Statement :=
      { expression := .atom (.condition "or" none (.text "x" false .contains)) }
    Catalog.hospital.Built ∧ Catalog.hospital.hasTable "or" = true ∧
      parse .hospital "[Where or (\"x\")]" = .error (.malformed .noTableName "Where") ∧
      parse .hospital "[Where or(\"x\")]" = .ok [rooms] ∧
      printStatements [rooms] = "[Where or (\"x\")]" := by
  intro rooms
  have hbuilt : Catalog.hospital.Built :=
    .table (t := Catalog.hospital.tables[0]) .empty (Or.inl rfl) rfl
  exact ⟨hbuilt, by decide, by decide +kernel, by decide +kernel, by decide +kernel⟩

end TableQuery
