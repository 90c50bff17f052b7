import TableQuery.Proofs.Grammar.Printable
import TableQuery.Proofs.Grammar.Words
import TableQuery.Query.Printer

/-!
# Literals read back

The written literal is the one thing in a condition that may hold arbitrary text, and
quoting is what makes this harmless: a quoted text is well nested and shows only its
quote at the top level, so neither the two dots of a range nor the blanks between the
items of a list are found inside it.

One form after another, what `TableQuery.Grammar.readLiteral` makes of the written
literal is the literal (`TableQuery.Grammar.readLiteral_renderInner`). The wildcards of
a text are the delicate point: they are put on and taken off without a mark of their own,
and `TableQuery.MatchMode.Writes` says for which texts this is unambiguous.
-/

namespace TableQuery

namespace Grammar

open Text

/-- What stands behind a part that succeeds. -/
theorem ok_bind {ε α β : Type} (a : α) (f : α → Except ε β) : (Except.ok a >>= f) = f a := rfl

/-! ### Quoted texts -/

theorem readQuotedTail?_escapeQuoted (text rest : List Char) :
    readQuotedTail? false (escapeQuoted text ++ '"' :: rest) = some (text, rest) := by
  induction text with
  | nil => rfl
  | cons c cs ih =>
    rw [escapeQuoted]
    split
    · -- the backslash is dropped and the character behind it is taken as it is
      simp [readQuotedTail?, ih]
    · rename_i hc
      simp only [Bool.or_eq_true, beq_iff_eq, not_or] at hc
      simp [readQuotedTail?, hc.1, hc.2, ih]

/-- **A quoted text reads back**, whatever it holds and whatever follows it. -/
theorem readQuoted_writeQuoted (text rest : List Char) :
    readQuoted (writeQuoted text ++ rest) = .ok (text, rest) := by
  have htail := readQuotedTail?_escapeQuoted text rest
  simp only [writeQuoted, List.cons_append, List.append_assoc, List.nil_append, readQuoted, htail]

theorem startsSolid_writeQuoted (text : List Char) : StartsSolid (writeQuoted text) :=
  ⟨'"', _, rfl, rfl⟩

theorem endsSolid_writeQuoted (text : List Char) : EndsSolid (writeQuoted text) :=
  ⟨'"', '"' :: escapeQuoted text, rfl, rfl⟩

/-! ### Joined texts -/

section Joining

variable {t u : List Char} {ts : List (List Char)}

theorem joinTexts_cons_cons (sep t u : List Char) (ts : List (List Char)) :
    joinTexts sep (t :: u :: ts) = t ++ sep ++ joinTexts sep (u :: ts) := rfl

theorem nested_joinTexts {P : Char → Prop} {sep : List Char} (hsep : Nested P sep)
    (h : ∀ t ∈ ts, Nested P t) : Nested P (joinTexts sep ts) := by
  induction ts with
  | nil => exact .nil
  | cons t ts ih =>
    have ht := h t (List.mem_cons_self ..)
    have hts := ih fun u hu => h u (List.mem_cons_of_mem _ hu)
    cases ts with
    | nil => exact ht
    | cons u ts => exact (ht.append hsep).append hts

theorem startsSolid_joinTexts (sep : List Char) (h : StartsSolid t) :
    StartsSolid (joinTexts sep (t :: ts)) := by
  cases ts with
  | nil => exact h
  | cons u ts =>
    rw [joinTexts_cons_cons, List.append_assoc]
    exact h.append _

theorem endsSolid_joinTexts (sep : List Char) (hne : ts ≠ []) (h : ∀ t ∈ ts, EndsSolid t) :
    EndsSolid (joinTexts sep ts) := by
  induction ts with
  | nil => exact absurd rfl hne
  | cons t ts ih =>
    cases ts with
    | nil => exact h t (List.mem_cons_self ..)
    | cons u ts =>
      have hrest := ih (List.cons_ne_nil _ _) fun v hv => h v (List.mem_cons_of_mem _ hv)
      exact hrest.append (t ++ sep)

end Joining

/-! ### Names -/

/-- A text that does not go on with a name character. -/
def EndsName (rest : List Char) : Prop :=
  ∀ c ∈ rest.head?, isNameChar c = false

theorem endsName_cons {c : Char} (hc : isNameChar c = false) (rest : List Char) :
    EndsName (c :: rest) := by
  rintro d ⟨⟩
  exact hc

theorem isName_iff {text : List Char} :
    isName text = true ↔ text ≠ [] ∧ ∀ c ∈ text, isNameChar c = true := by
  simp [isName]

theorem takeName_append_of_endsName {name rest : List Char}
    (hname : ∀ c ∈ name, isNameChar c = true) (hrest : EndsName rest) :
    takeName (name ++ rest) = (name, rest) := by
  rw [takeName, takeWhile_append_of_head? hname hrest, dropWhile_append_of_head? hname hrest]

/-! ### Texts that begin with no letter -/

section Head

variable {c : Char} {text : List Char}

theorem sameIgnoringCase_of_mem {keyword : List Char} (hkey : IsKeyword keyword)
    (hmem : c ∈ text) (hc : isNameChar c = false) : sameIgnoringCase text keyword = false := by
  refine Bool.eq_false_iff.mpr fun h => ?_
  have := isNameChar_of_sameIgnoringCase h hkey c hmem
  rw [hc] at this
  cases this

theorem sameIgnoringCase_of_head {keyword : List Char} (hkey : IsKeyword keyword)
    (hc : isNameChar c = false) : sameIgnoringCase (c :: text) keyword = false :=
  sameIgnoringCase_of_mem hkey (List.mem_cons_self ..) hc

theorem stripKeyword_of_head {keyword : String} (hkey : IsKeyword keyword.toList)
    (hne : keyword.toList ≠ []) (hc : isNameChar c = false) :
    stripKeyword keyword (c :: text) = none := by
  obtain ⟨k, ks, hk⟩ := List.exists_cons_of_ne_nil hne
  unfold stripKeyword
  extract_lets word rest
  have htake : (c :: text).take word.length = c :: text.take ks.length := by
    rw [show word = k :: ks from hk]
    rfl
  rw [htake, sameIgnoringCase_of_head hkey hc]
  rfl

end Head

/-! ### Wildcards -/

section Wildcards

variable {text : List Char}

/-- A star behind a text that is not empty ends a text of more than one character. -/
theorem trailing_concat {text : List Char} (hne : text ≠ []) :
    (decide (1 < (text ++ ['*']).length) && (text ++ ['*']).getLast? == some '*') = true := by
  have hlen : 1 < (text ++ ['*']).length := by
    have := List.length_pos_iff.mpr hne
    rw [List.length_append, List.length_singleton]
    omega
  rw [List.getLast?_concat, decide_eq_true hlen]
  rfl

/-- **The mode of a text reads back from its wildcards.** -/
theorem splitWildcards_joinWildcards {mode : MatchMode} (h : mode.Writes text) :
    splitWildcards (joinWildcards mode text) = (mode, text) := by
  cases mode with
  | contains =>
    rw [joinWildcards]
    split
    · -- the stars put around the text are the ones taken off
      have hhead : (('*' :: text ++ ['*']).head? == some '*') = true := rfl
      have hlast := trailing_concat (List.cons_ne_nil '*' text)
      rw [splitWildcards, hhead, hlast]
      simp only [List.cons_append, List.tail_cons, List.dropLast_concat]
    · rename_i hstar
      simp only [Bool.or_eq_true, beq_iff_eq, not_or] at hstar
      have hhead : (text.head? == some '*') = false := by simpa using hstar.1
      have hlast : (decide (1 < text.length) && text.getLast? == some '*') = false := by
        simp [hstar.2]
      rw [splitWildcards, hhead, hlast]
  | startsWith =>
    obtain ⟨hne, hhead⟩ := h
    -- the star of the mode stands at the end, and none at the front
    have hhead' : ((text ++ ['*']).head? == some '*') = false := by
      rw [List.head?_append, Option.or_of_isSome (by simpa using hne)]
      simpa using hhead
    rw [joinWildcards, splitWildcards, hhead', trailing_concat hne]
    simp only [List.dropLast_concat]
  | endsWith =>
    have hhead : (('*' :: text).head? == some '*') = true := rfl
    have hlast : (decide (1 < ('*' :: text).length) &&
        ('*' :: text).getLast? == some '*') = false := by
      cases text with
      | nil => rfl
      | cons c cs =>
        have hend : (c :: cs).getLast? ≠ some '*' := h
        rw [List.getLast?_cons_cons]
        simp [hend]
    rw [joinWildcards, splitWildcards, hhead, hlast]
    simp only [List.tail_cons]

end Wildcards

theorem textLiteral_joinWildcards {mode : MatchMode} {value : String}
    (h : mode.Writes value.toList) (caseSensitive : Bool) :
    textLiteral (joinWildcards mode value.toList) caseSensitive =
      .text value caseSensitive mode := by
  simp only [textLiteral, splitWildcards_joinWildcards h, String.ofList_toList]

/-! ### Items -/

theorem stripCaseMark_blank (text : List Char) :
    stripCaseMark (' ' :: text) = (false, ' ' :: text) := rfl

/-- What is read behind the first item of a list. -/
theorem readItems_writeQuoted_append (item after : List Char) :
    readItems (writeQuoted item ++ after) =
      let rest := (stripCaseMark after).2
      if !(trimStart rest).isEmpty && (trimStart rest).length == rest.length then
        fail .noBlankBetweenItems rest
      else
        match readItems (trimStart rest) with
        | .error e => .error e
        | .ok (items, marked) => .ok (item :: items, (stripCaseMark after).1 || marked) := by
  have hread := readQuoted_writeQuoted item after
  rw [writeQuoted, List.cons_append, List.cons_append] at hread ⊢
  rw [readItems]
  split
  · rename_i e he
    rw [hread] at he
    cases he
  · rename_i he
    rw [hread] at he
    cases he
    rfl

theorem readItems_nil : readItems [] = .ok ([], false) := by
  rw [readItems]

/-- The last item, which a mark may follow. -/
theorem readItems_last (item : List Char) (caseSensitive : Bool) :
    readItems (writeQuoted item ++ (if caseSensitive then [':', 's'] else [])) =
      .ok ([item], caseSensitive) := by
  rw [readItems_writeQuoted_append]
  cases caseSensitive <;> simp [stripCaseMark, trimStart, readItems_nil]

/-- One item in front of others. -/
theorem readItems_cons {item text : List Char} {items : List (List Char)}
    (hsolid : StartsSolid text) (htext : readItems text = .ok (items, false)) :
    readItems (writeQuoted item ++ ' ' :: text) = .ok (item :: items, false) := by
  have htrim : trimStart (' ' :: text) = text := by
    rw [trimStart_cons_of_isBlank rfl, trimStart_of_startsSolid hsolid]
  have hlen : (text.length == (' ' :: text).length) = false := by simp
  rw [readItems_writeQuoted_append]
  simp only [stripCaseMark_blank, htrim, hlen, Bool.and_false, Bool.false_eq_true, if_false,
    htext, Bool.or_false]

/-- **The items of a list read back.** -/
theorem readItems_joinTexts {items : List (List Char)} (hne : items ≠ []) :
    readItems (joinTexts [' '] (items.map writeQuoted)) = .ok (items, false) := by
  induction items with
  | nil => exact absurd rfl hne
  | cons item items ih =>
    cases items with
    | nil =>
      have hlast := readItems_last item false
      rwa [if_neg Bool.false_ne_true, List.append_nil] at hlast
    | cons next items =>
      have hrest := ih (List.cons_ne_nil _ _)
      -- behind the blank the next item begins at once
      have hsolid : StartsSolid (joinTexts [' '] ((next :: items).map writeQuoted)) :=
        startsSolid_joinTexts [' '] (startsSolid_writeQuoted next)
      rw [List.map_cons, List.map_cons, joinTexts_cons_cons, List.append_assoc,
        List.singleton_append]
      exact readItems_cons hsolid hrest

theorem listItem_mark {item : ListItem} (h : item.Printable) :
    listItem (item.role.mark ++ item.text.toList) = item := by
  obtain ⟨role, text⟩ := item
  cases role with
  | required =>
    obtain ⟨htilde, hdash⟩ := h rfl
    rw [ItemRole.mark, List.nil_append]
    unfold listItem
    split
    · rename_i heq
      exact absurd (congrArg List.head? heq) htilde
    · rename_i heq
      exact absurd (congrArg List.head? heq) hdash
    · rw [String.ofList_toList]
  | alternative => simp [ItemRole.mark, listItem]
  | excluded => simp [ItemRole.mark, listItem]

/-! ### Ranges -/

theorem splitRangeFrom_append {s : Scan} {text : List Char} (rest : List Char)
    (h : ∀ c ∈ s.top text, c ≠ '.') :
    splitRangeFrom s (text ++ rest) =
      (splitRangeFrom (s.run text) rest).map fun r => (text ++ r.1, r.2) := by
  induction text generalizing s with
  | nil => simp
  | cons c cs ih =>
    have hcut : (s.atTop && c == '.') = false :=
      Scan.atTop_and_eq_false fun hc => beq_eq_false_iff_ne.mpr (h c hc)
    rw [List.cons_append, splitRangeFrom, hcut, Bool.false_and,
      ih fun d hd => h d (Scan.mem_top_of_step hd)]
    simp [Option.map_map, Function.comp_def]

/-- A cut at two dots passes over text that shows no dot. -/
theorem Nested.splitRangeFrom_append {text : List Char} (h : Nested (· ≠ '.') text)
    (rest : List Char) : splitRangeFrom {} (text ++ rest) =
      (splitRangeFrom {} rest).map fun r => (text ++ r.1, r.2) := by
  rw [Grammar.splitRangeFrom_append rest fun c hc => (h.of_mem_top Scan.outside_start hc).2,
    h.run_eq Scan.outside_start]

/-- Text without a dot at the top level is no range. -/
theorem splitRangeFrom_of_nested {text : List Char} (h : Nested (· ≠ '.') text) :
    splitRangeFrom {} text = none := by
  have hpass := h.splitRangeFrom_append []
  rwa [List.append_nil] at hpass

theorem nested_renderBound (bound : Option String) :
    Nested (· ≠ '.') (Literal.renderBound bound) := by
  cases bound with
  | none => exact .nil
  | some bound => exact .writeQuoted _ (by decide)

theorem splitRangeFrom_renderBound (lower : Option String) (upper : List Char) :
    splitRangeFrom {} (Literal.renderBound lower ++ ['.', '.'] ++ upper) =
      some (Literal.renderBound lower, upper) := by
  rw [List.append_assoc, (nested_renderBound lower).splitRangeFrom_append]
  simp [splitRangeFrom, Scan.atTop]

theorem readBound_renderBound (bound : Option String) :
    readBound (Literal.renderBound bound) = .ok bound := by
  cases bound with
  | none => rfl
  | some bound =>
    have htrim := trim_of_solid (startsSolid_writeQuoted bound.toList)
      (endsSolid_writeQuoted bound.toList)
    have hread := readQuoted_writeQuoted bound.toList []
    rw [List.append_nil] at hread
    rw [Literal.renderBound, readBound, htrim]
    rw [writeQuoted, List.cons_append] at hread ⊢
    simp only [hread, ok_bind, trim_nil, List.isEmpty_nil, if_true, String.ofList_toList]
    rfl

/-! ### Literals -/

section Dispatch

variable {c : Char} {text : List Char}

/-- What begins with no letter is none of the literals that are words. -/
theorem not_word_of_head (text : List Char) (hc : isNameChar c = false) :
    sameIgnoringCase (c :: text) "EMPTY".toList = false ∧ stripKeyword "NOT" (c :: text) = none :=
  ⟨sameIgnoringCase_of_head (by decide) hc, stripKeyword_of_head (by decide) (by decide) hc⟩

theorem readLiteral_range (hhead : text.head? = some c) (hc : isNameChar c = false)
    (hdollar : c ≠ '$') (htrim : trim text = text) {lower upper : List Char}
    (h : splitRangeFrom {} text = some (lower, upper)) :
    readLiteral text = (do return .dateRange (← readBound lower) (← readBound upper)) := by
  obtain ⟨cs, rfl⟩ := List.head?_eq_some_iff.mp hhead
  obtain ⟨hempty, hnot⟩ := not_word_of_head cs hc
  simp only [readLiteral, htrim, hempty, hnot, Option.any_none, Bool.false_eq_true, if_false, h]
  split
  · rename_i heq
    exact absurd (List.cons.inj heq).1 hdollar
  · rfl

theorem readLiteral_quoted (hhead : text.head? = some '"') (htrim : trim text = text)
    (h : splitRangeFrom {} text = none) : readLiteral text = readQuotedLiteral text := by
  obtain ⟨cs, rfl⟩ := List.head?_eq_some_iff.mp hhead
  have ⟨hempty, hnot⟩ := not_word_of_head (c := '"') cs rfl
  simp only [readLiteral, htrim, hempty, hnot, Option.any_none, Bool.false_eq_true, if_false, h]
  rfl

theorem readLiteral_variable (htrim : trim ('$' :: text) = '$' :: text) :
    readLiteral ('$' :: text) = readVariable text ('$' :: text) := by
  have ⟨hempty, hnot⟩ := not_word_of_head (c := '$') text rfl
  simp only [readLiteral, htrim, hempty, hnot, Option.any_none, Bool.false_eq_true, if_false]

end Dispatch

/-- What follows the name of a reference. -/
theorem readKey_render {key : Option String} (hkey : ∀ k ∈ key, IsName k)
    (mode : VariableMode) (whole : List Char) :
    readKey ((key.map fun k => ':' :: k.toList).getD [] ++ (" -> ".toList ++ mode.keyword.toList))
      whole = .ok (key, " -> ".toList ++ mode.keyword.toList) := by
  cases key with
  | none => rfl
  | some key =>
    obtain ⟨hne, hall⟩ := isName_iff.mp (hkey key rfl)
    have hends : EndsName (" -> ".toList ++ mode.keyword.toList) := endsName_cons rfl _
    have hempty : key.toList.isEmpty = false := by simp [hne]
    simp only [Option.map_some, Option.getD_some, List.cons_append, readKey,
      takeName_append_of_endsName hall hends, hempty, Bool.false_eq_true, if_false,
      String.ofList_toList]

/-- A reference reads back. -/
theorem readVariable_render {name : String} {key : Option String} (hname : IsName name)
    (hkey : ∀ k ∈ key, IsName k) (mode : VariableMode) (whole : List Char) :
    readVariable (name.toList ++ ((key.map fun k => ':' :: k.toList).getD [] ++
      (" -> ".toList ++ mode.keyword.toList))) whole = .ok (.variableRef name key mode) := by
  obtain ⟨hne, hall⟩ := isName_iff.mp hname
  have hmode : readMode (trim (" -> ".toList ++ mode.keyword.toList)) whole = .ok mode := by
    cases mode <;> rfl
  have hends : EndsName ((key.map fun k => ':' :: k.toList).getD [] ++
      (" -> ".toList ++ mode.keyword.toList)) := by
    cases key <;> exact endsName_cons rfl _
  have hempty : name.toList.isEmpty = false := by simp [hne]
  simp only [readVariable, takeName_append_of_endsName hall hends, hempty, Bool.false_eq_true,
    if_false, readKey_render hkey, ok_bind, hmode, String.ofList_toList]
  rfl

theorem endsSolid_keyword (mode : VariableMode) : EndsSolid mode.keyword.toList := by
  cases mode
  · exact ⟨'Y', "AN".toList, rfl, rfl⟩
  · exact ⟨'L', "AL".toList, rfl, rfl⟩
  · exact ⟨'E', "ON".toList, rfl, rfl⟩

/-- **A quoted text is read as a text**, whatever it holds; stars at its ends are its
wildcards. -/
theorem readLiteral_writeQuoted (text : List Char) (caseSensitive : Bool) :
    readLiteral (writeQuoted text ++ if caseSensitive then [':', 's'] else []) =
      .ok (textLiteral text caseSensitive) := by
  -- no dots are seen outside the quotes, so the text is no range
  have hnested : Nested (· ≠ '.')
      (writeQuoted text ++ if caseSensitive then [':', 's'] else []) := by
    refine (Nested.writeQuoted _ (by decide)).append ?_
    cases caseSensitive
    · exact .nil
    · exact .of_mem (by decide)
  have hends : EndsSolid (writeQuoted text ++ if caseSensitive then [':', 's'] else []) := by
    cases caseSensitive
    · rw [if_neg Bool.false_ne_true, List.append_nil]
      exact endsSolid_writeQuoted _
    · exact EndsSolid.append ⟨'s', [':'], rfl, rfl⟩ _
  have htrim := trim_of_solid ((startsSolid_writeQuoted _).append _) hends
  rw [readLiteral_quoted rfl htrim (splitRangeFrom_of_nested hnested), readQuotedLiteral,
    readItems_last, ok_bind]
  rfl

theorem readLiteral_text {mode : MatchMode} {value : String} (h : mode.Writes value.toList)
    (caseSensitive : Bool) : readLiteral (Literal.text value caseSensitive mode).renderInner =
      .ok (.text value caseSensitive mode) := by
  have hread := readLiteral_writeQuoted (joinWildcards mode value.toList) caseSensitive
  exact hread.trans (congrArg Except.ok (textLiteral_joinWildcards h caseSensitive))

theorem readLiteral_dateRange (lower upper : Option String) :
    readLiteral (Literal.dateRange lower upper).renderInner = .ok (.dateRange lower upper) := by
  have hsplit := splitRangeFrom_renderBound lower (Literal.renderBound upper)
  -- with the lower bound left out, the text begins with the dots
  have hhead : ∃ c, (Literal.renderBound lower ++ ['.', '.'] ++
      Literal.renderBound upper).head? = some c ∧ isNameChar c = false ∧ c ≠ '$' ∧
        isBlank c = false := by
    cases lower with
    | none => exact ⟨'.', rfl, rfl, by decide, rfl⟩
    | some lower => exact ⟨'"', rfl, rfl, by decide, rfl⟩
  have hends : EndsSolid (Literal.renderBound lower ++ ['.', '.'] ++
      Literal.renderBound upper) := by
    cases upper with
    | none =>
      rw [Literal.renderBound, List.append_nil]
      exact EndsSolid.append ⟨'.', ['.'], rfl, rfl⟩ _
    | some upper => exact (endsSolid_writeQuoted _).append _
  obtain ⟨c, hc, hname, hdollar, hblank⟩ := hhead
  obtain ⟨cs, hcs⟩ := List.head?_eq_some_iff.mp hc
  have htrim := trim_of_solid ⟨c, cs, hcs, hblank⟩ hends
  refine (readLiteral_range hc hname hdollar htrim hsplit).trans ?_
  rw [readBound_renderBound, readBound_renderBound]
  rfl

theorem readLiteral_list {items : List ListItem} (hlen : 2 ≤ items.length)
    (h : ∀ item ∈ items, item.Printable) :
    readLiteral (Literal.list items).renderInner = .ok (.list items) := by
  -- what is quoted is the mark of an item together with its text
  let texts := items.map fun item => item.role.mark ++ item.text.toList
  have hinner : (Literal.list items).renderInner = joinTexts [' '] (texts.map writeQuoted) := by
    rw [List.map_map]
    rfl
  have hback : texts.map listItem = items := by
    rw [List.map_map]
    conv => rhs; rw [← List.map_id items]
    exact List.map_congr_left fun item hitem => listItem_mark (h item hitem)
  have htwo : 2 ≤ texts.length := by
    rw [List.length_map]
    exact hlen
  rw [hinner]
  generalize texts = texts at hback htwo
  match texts, htwo with
  | first :: second :: more, _ =>
    have hnested : Nested (· ≠ '.')
        (joinTexts [' '] ((first :: second :: more).map writeQuoted)) := by
      refine nested_joinTexts (.of_mem (by decide)) fun t ht => ?_
      obtain ⟨text, -, rfl⟩ := List.mem_map.mp ht
      exact .writeQuoted text (by decide)
    have hends : EndsSolid (joinTexts [' '] ((first :: second :: more).map writeQuoted)) := by
      refine endsSolid_joinTexts _ (List.cons_ne_nil _ _) fun t ht => ?_
      obtain ⟨text, -, rfl⟩ := List.mem_map.mp ht
      exact endsSolid_writeQuoted text
    have hstarts : StartsSolid (joinTexts [' '] ((first :: second :: more).map writeQuoted)) :=
      startsSolid_joinTexts [' '] (startsSolid_writeQuoted first)
    have htrim := trim_of_solid hstarts hends
    rw [readLiteral_quoted rfl htrim (splitRangeFrom_of_nested hnested), readQuotedLiteral,
      readItems_joinTexts (List.cons_ne_nil _ _), ok_bind]
    exact congrArg (fun items => Except.ok (Literal.list items)) hback

theorem readLiteral_variableRef {name : String} {key : Option String} (hname : IsName name)
    (hkey : ∀ k ∈ key, IsName k) (mode : VariableMode) :
    readLiteral (Literal.variableRef name key mode).renderInner =
      .ok (.variableRef name key mode) := by
  have hinner : (Literal.variableRef name key mode).renderInner =
      '$' :: name.toList ++ (key.map fun k => ':' :: k.toList).getD [] ++ " -> ".toList ++
        mode.keyword.toList := rfl
  have hends := (endsSolid_keyword mode).append
    ('$' :: name.toList ++ (key.map fun k => ':' :: k.toList).getD [] ++ " -> ".toList)
  rw [hinner]
  simp only [List.append_assoc, List.cons_append] at hends ⊢
  have htrim := trim_of_solid ⟨'$', _, rfl, rfl⟩ hends
  rw [readLiteral_variable htrim]
  exact readVariable_render hname hkey mode _

/-- **A literal reads back.** -/
theorem readLiteral_renderInner {l : Literal} (h : l.Printable) :
    readLiteral l.renderInner = .ok l := by
  cases l with
  | text value caseSensitive mode => exact readLiteral_text h caseSensitive
  | dateRange lower upper => exact readLiteral_dateRange lower upper
  | empty => rfl
  | notEmpty => rfl
  | variableRef name key mode => exact readLiteral_variableRef h.1 h.2 mode
  | list items => exact readLiteral_list h.1 h.2

/-- What stands between the parentheses of a literal is well nested. -/
theorem nested_renderInner {l : Literal} (h : l.Printable) :
    Nested (fun _ => True) l.renderInner := by
  have hname : ∀ name : String, IsName name → Nested (fun _ => True) name.toList := fun name h =>
    .of_isNameChar (isName_iff.mp h).2 fun _ _ => trivial
  have hbound : ∀ bound, Nested (fun _ => True) (Literal.renderBound bound) := fun bound =>
    (nested_renderBound bound).mono fun _ _ => trivial
  cases l with
  | text value caseSensitive mode =>
    refine (Nested.writeQuoted _ trivial).append ?_
    cases caseSensitive
    · exact .nil
    · exact .of_mem (by decide)
  | dateRange lower upper =>
    exact ((hbound lower).append (.of_mem (by decide))).append (hbound upper)
  | empty => exact .of_mem (by decide)
  | notEmpty => exact .of_mem (by decide)
  | variableRef name key mode =>
    obtain ⟨hn, hk⟩ := h
    have hkey : Nested (fun _ => True) ((key.map fun k => ':' :: k.toList).getD []) := by
      cases key with
      | none => exact .nil
      | some key => exact .char rfl trivial (hname key (hk key rfl))
    have hmode : Nested (fun _ => True) mode.keyword.toList := by
      cases mode <;> exact .of_mem (by decide)
    exact .char rfl trivial ((((hname name hn).append hkey).append (.of_mem (by decide))).append
      hmode)
  | list items =>
    refine nested_joinTexts (.of_mem (by decide)) fun t ht => ?_
    obtain ⟨item, -, rfl⟩ := List.mem_map.mp ht
    exact .writeQuoted _ trivial

/-- A written literal is one word. -/
theorem word_render {l : Literal} (h : l.Printable) : Word l.render :=
  .group (nested_renderInner h)

end Grammar

end TableQuery
