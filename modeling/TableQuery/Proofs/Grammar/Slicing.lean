import TableQuery.Proofs.Grammar.Closing
import TableQuery.Proofs.Grammar.Offsets

/-!
# Slicing is safe

Reading takes its text apart by offsets, and a slice whose ends are out of order, out of
the text or inside a character would end it. `TableQuery.Grammar.SlicesTaken` is the
statement that none of the slices of a text is so, for each of the ways in which one is
taken: with offsets calculated as they are, the slice exists, and it is the piece that is
read.

Nothing is assumed of the text for this, neither balance nor that it is ASCII. Balance is
what reading itself needs: behind the check of a whole text no group and no literal in it
is found open (`TableQuery.Grammar.parse_slices_safely`).
-/

namespace TableQuery

namespace Grammar

open Text

open String (utf8Len utf8Len_append utf8Len_cons utf8Len_eq_zero)

/-! ### Literals -/

/-- The content of a literal behind its opening quote, and the offset of its closing quote; the text
begins at an offset itself. -/
def quoteOffset? (escaped : Bool) (offset : Nat) : List Char → Option (List Char × Nat)
  | [] => none
  | c :: cs =>
    let next := offset + c.utf8Size
    if escaped then (quoteOffset? false next cs).map fun r => (c :: r.1, r.2)
    else if c == '\\' then quoteOffset? true next cs
    else if c == '"' then some ([], offset)
    else (quoteOffset? false next cs).map fun r => (c :: r.1, r.2)

/-- The content of the literal that a text begins with, and what follows it. -/
def readQuotedSlice? : List Char → Option (Except Error (List Char × List Char))
  | '"' :: cs =>
    match quoteOffset? false 1 cs with
    | some (content, close) => do return .ok (content, ← sliceFrom? ('"' :: cs) (close + 1))
    | none => some (fail .unterminatedString ('"' :: cs))
  | text => some (fail .noString text)

theorem quoteOffset?_cons (escaped : Bool) (offset : Nat) (c : Char) (cs : List Char) :
    quoteOffset? escaped offset (c :: cs) =
      if Scan.closes escaped c then some ([], offset)
      else (quoteOffset? (Scan.escapes escaped c) (offset + c.utf8Size) cs).map fun r =>
        (if Scan.escapes escaped c then r.1 else c :: r.1, r.2) := by
  cases escaped with
  | true => rfl
  | false =>
    by_cases hslash : c = '\\'
    · subst hslash
      simp [quoteOffset?, Scan.closes, Scan.escapes]
    · have hslash : (c == '\\') = false := beq_eq_false_iff_ne.mpr hslash
      simp [quoteOffset?, Scan.closes, Scan.escapes, hslash]

/-- The closing quote is where the literal that is read ends. -/
theorem quoteOffset?_eq (text : List Char) : ∀ (escaped : Bool) (offset : Nat),
    (readQuotedTail? escaped text = none ∧ quoteOffset? escaped offset text = none) ∨
      ∃ front content rest, text = front ++ '"' :: rest ∧
        readQuotedTail? escaped text = some (content, rest) ∧
          quoteOffset? escaped offset text = some (content, offset + utf8Len front) := by
  induction text with
  | nil => exact fun _ _ => .inl ⟨rfl, rfl⟩
  | cons c cs ih =>
    intro escaped offset
    rw [readQuotedTail?_cons, quoteOffset?_cons]
    cases hcloses : Scan.closes escaped c with
    | true =>
      simp only [Scan.closes, Bool.and_eq_true, beq_iff_eq] at hcloses
      exact .inr ⟨[], [], cs, congrArg (· :: cs) hcloses.2, rfl, rfl⟩
    | false =>
      simp only [Bool.false_eq_true, if_false]
      rcases ih (Scan.escapes escaped c) (offset + c.utf8Size) with
        ⟨hread, hoffset⟩ | ⟨front, content, rest, rfl, hread, hoffset⟩
      · exact .inl ⟨by rw [hread]; rfl, by rw [hoffset]; rfl⟩
      · refine .inr ⟨c :: front, _, rest, rfl, by rw [hread]; rfl, ?_⟩
        rw [hoffset, Option.map_some, utf8Len_cons, Nat.add_assoc, Nat.add_comm c.utf8Size]

theorem readQuotedSlice?_eq (text : List Char) :
    readQuotedSlice? text = some (readQuoted text) := by
  by_cases hquote : ∃ cs, text = '"' :: cs
  · obtain ⟨cs, rfl⟩ := hquote
    rw [readQuotedSlice?, readQuoted]
    rcases quoteOffset?_eq cs false 1 with ⟨hread, hoffset⟩ |
        ⟨front, content, rest, rfl, hread, hoffset⟩
    · rw [hread, hoffset]
    · have hrest := sliceFrom?_append ('"' :: front ++ ['"']) rest
      have hone : Char.utf8Size '"' = 1 := rfl
      rw [utf8Len_append_singleton, List.append_assoc, List.cons_append, List.singleton_append,
        utf8Len_cons, hone, Nat.add_comm (utf8Len front)] at hrest
      rw [hread, hoffset]
      dsimp only
      rw [hrest]
      rfl
  · have hno : ∀ cs, text = '"' :: cs → False := fun cs h => hquote ⟨cs, h⟩
    rw [readQuotedSlice?.eq_2 text hno, readQuoted.eq_2 text hno]

/-! ### Wildcards -/

/-- A written text without its wildcards. -/
def splitWildcardsSlice? (written : List Char) : Option (MatchMode × List Char) :=
  let size := utf8Len written
  let leading := written.head? == some '*'
  let trailing := decide (1 < size) && written.getLast? == some '*'
  match leading, trailing with
  | true, true => do return (.contains, ← slice? written 1 (size - 1))
  | true, false => do return (.endsWith, ← sliceFrom? written 1)
  | false, true => do return (.startsWith, ← slice? written 0 (size - 1))
  | false, false => some (.contains, written)

/-- A star of more than one character is not alone. -/
theorem one_lt_utf8Len_iff {written : List Char} (h : written.getLast? = some '*') :
    1 < utf8Len written ↔ 1 < written.length := by
  obtain ⟨front, rfl⟩ := List.getLast?_eq_some_iff.mp h
  have hstar : Char.utf8Size '*' = 1 := rfl
  rw [utf8Len_append_singleton, List.length_append, hstar, List.length_singleton]
  have hzero : utf8Len front = 0 ↔ front.length = 0 := by
    rw [utf8Len_eq_zero, List.length_eq_zero_iff]
  omega

/-- A star takes one byte at either end. -/
theorem slices_star (text : List Char) :
    sliceFrom? ('*' :: text) 1 = some text ∧
      slice? (text ++ ['*']) 0 (utf8Len (text ++ ['*']) - 1) = some text ∧
        slice? ('*' :: (text ++ ['*'])) 1 (utf8Len ('*' :: (text ++ ['*'])) - 1) = some text := by
  have hstar : Char.utf8Size '*' = 1 := rfl
  refine ⟨sliceFrom?_append ['*'] text, ?_, ?_⟩
  · rw [utf8Len_append_singleton, hstar, Nat.add_sub_cancel]
    exact slice?_zero text ['*']
  · rw [utf8Len_cons, utf8Len_append_singleton, hstar, Nat.add_sub_cancel]
    have hslice := slice?_append ['*'] text ['*']
    rw [List.singleton_append, utf8Len_cons, hstar] at hslice
    exact hslice

theorem splitWildcardsSlice?_eq (written : List Char) :
    splitWildcardsSlice? written = some (splitWildcards written) := by
  have htrailing : (decide (1 < utf8Len written) && written.getLast? == some '*') =
      (decide (1 < written.length) && written.getLast? == some '*') := by
    rw [Bool.eq_iff_iff]
    simp only [Bool.and_eq_true, decide_eq_true_eq, beq_iff_eq]
    exact and_congr_left fun h => one_lt_utf8Len_iff h
  rw [splitWildcardsSlice?, splitWildcards, htrailing]
  cases hhead : written.head? == some '*' with
  | true =>
    obtain ⟨cs, rfl⟩ := List.head?_eq_some_iff.mp (beq_iff_eq.mp hhead)
    cases hlast : decide (1 < ('*' :: cs).length) && ('*' :: cs).getLast? == some '*' with
    | true =>
      simp only [Bool.and_eq_true, decide_eq_true_eq, beq_iff_eq] at hlast
      obtain ⟨front, hfront⟩ := List.getLast?_eq_some_iff.mp hlast.2
      cases front with
      | nil =>
        rw [hfront] at hlast
        exact absurd hlast.1 (Nat.lt_irrefl 1)
      | cons c front =>
        obtain rfl : cs = front ++ ['*'] := (List.cons.inj hfront).2
        dsimp only
        rw [(slices_star front).2.2, List.tail_cons, List.dropLast_concat]
        rfl
    | false =>
      dsimp only
      rw [(slices_star cs).1]
      rfl
  | false =>
    cases hlast : decide (1 < written.length) && written.getLast? == some '*' with
    | true =>
      simp only [Bool.and_eq_true, beq_iff_eq] at hlast
      obtain ⟨front, rfl⟩ := List.getLast?_eq_some_iff.mp hlast.2
      dsimp only
      rw [(slices_star front).2.1, List.dropLast_concat]
      rfl
    | false => rfl

/-! ### Projections -/

/-- The offset of the end of a list of columns: after a name the list goes on if a comma comes
next. -/
def columnsEnd? (text : List Char) (stop : Nat) : Option Nat :=
  match _h : sliceFrom? text stop with
  | none => none
  | some rest =>
    match spanSlices? isNameChar rest with
    | none => none
    | some (name, _) =>
      match _h' : sliceFrom? text (stop + utf8Len name) with
      | none => none
      | some behind =>
        match _c : trimStart behind with
        | ',' :: next => columnsEnd? text (utf8Len text - utf8Len (trimStart next))
        | _ => some (stop + utf8Len name)
termination_by utf8Len text - stop
decreasing_by
  have h₁ := utf8Len_of_sliceFrom? _h'
  have h₂ := utf8Len_trimStart_le behind
  have h₃ := utf8Len_trimStart_le next
  have h₄ : Char.utf8Size ',' = 1 := rfl
  rw [_c, utf8Len_cons, h₄] at h₂
  omega

/-- Behind a comma the list goes on with the rest of its text. -/
theorem exists_of_comma {text next : List Char}
    (h : trimStart (takeName text).2 = ',' :: next) : ∃ front, text = front ++ trimStart next := by
  obtain ⟨blanks, hblanks⟩ : ∃ blanks, (takeName text).2 = blanks ++ ',' :: next :=
    ⟨_, by rw [← h]; exact List.takeWhile_append_dropWhile.symm⟩
  obtain ⟨blanks', hblanks'⟩ : ∃ blanks, next = blanks ++ trimStart next :=
    ⟨_, List.takeWhile_append_dropWhile.symm⟩
  refine ⟨(takeName text).1 ++ blanks ++ ',' :: blanks', ?_⟩
  rw [List.append_assoc, List.cons_append, ← hblanks', List.append_assoc, ← hblanks,
    takeName_append]

/-- What follows a list of columns is what is left of its text. -/
theorem exists_of_afterColumns (text : List Char) : ∃ front, text = front ++ afterColumns text := by
  fun_induction afterColumns text with
  | case1 text next hnext ih =>
    obtain ⟨front, hfront⟩ := exists_of_comma hnext
    obtain ⟨front', hfront'⟩ := ih
    exact ⟨front ++ front', by rw [List.append_assoc, ← hfront', ← hfront]⟩
  | case2 text _ => exact ⟨_, (takeName_append text).symm⟩

/-- One name of the list. -/
theorem columnsEnd?_append (before rest : List Char) :
    columnsEnd? (before ++ rest) (utf8Len before) =
      match trimStart (takeName rest).2 with
      | ',' :: next =>
        columnsEnd? (before ++ rest) (utf8Len (before ++ rest) - utf8Len (trimStart next))
      | _ => some (utf8Len before + utf8Len (takeName rest).1) := by
  have hrest := sliceFrom?_append before rest
  have hname : spanSlices? isNameChar rest = some (takeName rest) := spanSlices?_eq _ rest
  have hbehind := sliceFrom?_append (before ++ (takeName rest).1) (takeName rest).2
  rw [List.append_assoc, takeName_append, utf8Len_append] at hbehind
  rw [columnsEnd?]
  split
  · rename_i h
    rw [hrest] at h
    cases h
  rename_i rest' h
  obtain rfl := Option.some.inj (hrest.symm.trans h)
  rw [hname]
  dsimp only
  split
  · rename_i h
    rw [hbehind] at h
    cases h
  rename_i behind h
  obtain rfl := Option.some.inj (hbehind.symm.trans h)
  split
  · rename_i heq
    rw [heq]
    rfl
  · rename_i hno
    split
    · rename_i heq
      exact (hno _ heq).elim
    · rfl

theorem columnsEnd?_eq {text : List Char} (rest : List Char) : ∀ before : List Char,
    text = before ++ rest →
      columnsEnd? text (utf8Len before) = some (utf8Len text - utf8Len (afterColumns rest)) := by
  fun_induction afterColumns rest with
  | case1 rest next hnext ih =>
    rintro before rfl
    obtain ⟨front, hfront⟩ := exists_of_comma hnext
    have htext : before ++ rest = before ++ front ++ trimStart next := by
      rw [List.append_assoc, ← hfront]
    have hstop : utf8Len (before ++ rest) - utf8Len (trimStart next) =
        utf8Len (before ++ front) := by
      rw [htext, utf8Len_append (before ++ front), Nat.add_sub_cancel]
    rw [columnsEnd?_append, hnext, ← ih _ htext, ← hstop]
    rfl
  | case2 rest hno =>
    rintro before rfl
    have hlen : utf8Len (takeName rest).1 + utf8Len (takeName rest).2 = utf8Len rest := by
      rw [← utf8Len_append, takeName_append]
    rw [columnsEnd?_append]
    split
    · rename_i heq
      exact (hno _ heq).elim
    · rw [utf8Len_append, ← hlen]
      exact congrArg some (by omega)

/-- The projection at the front of a text, and what follows it. -/
def splitProjectionSlices? (text : List Char) : Option (List Char × List Char) := do
  let start := utf8Len text - utf8Len (trimStart text)
  let stop ← if (← sliceFrom? text start).head? == some '*' then some (start + 1)
    else columnsEnd? text start
  return (← slice? text 0 stop, ← sliceFrom? text stop)

/-- What is in front of the rest is the projection. -/
theorem splitProjection_eq {front rest : List Char}
    (h : (splitProjection (front ++ rest)).2 = rest) :
    splitProjection (front ++ rest) = (front, rest) := by
  have hfront : (splitProjection (front ++ rest)).1 =
      (front ++ rest).take ((front ++ rest).length - (splitProjection (front ++ rest)).2.length) :=
    rfl
  rw [h, List.length_append, Nat.add_sub_cancel, List.take_left] at hfront
  exact Prod.ext hfront h

/-- What is behind a projection: a star, or else the columns. -/
theorem splitProjection_cases (text : List Char) :
    trimStart text = '*' :: (splitProjection text).2 ∨
      (trimStart text).head? ≠ some '*' ∧
        (splitProjection text).2 = afterColumns (trimStart text) := by
  rw [splitProjection]
  dsimp only
  split
  · rename_i heq
    exact .inl heq
  · rename_i hno
    refine .inr ⟨fun hhead => ?_, rfl⟩
    obtain ⟨rest, heq⟩ := List.head?_eq_some_iff.mp hhead
    exact hno rest heq

theorem splitProjectionSlices?_eq (text : List Char) :
    splitProjectionSlices? text = some (splitProjection text) := by
  obtain ⟨blanks, start, hstart, rfl⟩ : ∃ blanks start, trimStart text = start ∧
      text = blanks ++ start :=
    ⟨_, _, rfl, List.takeWhile_append_dropWhile.symm⟩
  -- the projection, if it ends at the offset and the rest is behind it
  have hslices : ∀ front rest, blanks ++ start = front ++ rest →
      (splitProjection (blanks ++ start)).2 = rest →
        (do return (← slice? (blanks ++ start) 0 (utf8Len front),
          ← sliceFrom? (blanks ++ start) (utf8Len front)) : Option (List Char × List Char)) =
            some (splitProjection (blanks ++ start)) := by
    intro front rest heq h
    rw [heq] at h ⊢
    rw [slice?_zero, sliceFrom?_append, splitProjection_eq h]
    rfl
  rw [splitProjectionSlices?, hstart, utf8Len_append, Nat.add_sub_cancel, sliceFrom?_append]
  have hcases := splitProjection_cases (blanks ++ start)
  rw [hstart] at hcases
  rcases hcases with hstar | ⟨hno, hrest⟩
  · rw [← hslices (blanks ++ ['*']) _ (by simp [← hstar]) rfl, hstar, utf8Len_append_singleton]
    rfl
  · obtain ⟨front, hfront⟩ := exists_of_afterColumns start
    have htext : blanks ++ start = blanks ++ front ++ afterColumns start := by
      rw [List.append_assoc, ← hfront]
    have hcolumns := columnsEnd?_eq start blanks rfl
    have hend : utf8Len (blanks ++ start) =
        utf8Len (blanks ++ front) + utf8Len (afterColumns start) :=
      (congrArg utf8Len htext).trans (utf8Len_append _ _)
    rw [hend, Nat.add_sub_cancel] at hcolumns
    have hstar : (start.head? == some '*') = false := beq_eq_false_iff_ne.mpr hno
    rw [← hslices (blanks ++ front) (afterColumns start) htext hrest]
    simp only [Option.bind_eq_bind, Option.bind_some, hstar, Bool.false_eq_true, if_false, hcolumns]

/-! ### All of them -/

/-- The slices of a text exist and are the pieces that are read. -/
structure SlicesTaken (text : List Char) : Prop where
  /-- Statements, stages and arguments. -/
  pieces : ∀ sep, splitTopSlices? sep text = some (splitTop sep text).toList
  /-- What is in front of the parts of a segment, and the parts. -/
  parts : splitPartsSlices? text = some (splitParts text)
  /-- The inside of a part, and what is behind its bracket. -/
  groups : ∀ part ∈ (splitParts text).2,
    splitGroupSlices? (trim part) = some (splitGroup (trim part))
  /-- The inside of a text in brackets. -/
  inside : ∀ opening, IsOpening opening →
    unwrapGroupSlice? opening text = some (unwrapGroup opening text)
  /-- Operands. -/
  operands : ∀ keyword : String, IsKeyword keyword.toList →
    splitKeywordSlices? keyword text = some (splitKeyword keyword text).toList
  /-- What is behind a keyword. -/
  behindKeyword : ∀ keyword : String, IsKeyword keyword.toList →
    stripKeywordSlice? keyword text = some (stripKeyword keyword text)
  /-- Names of all kinds, lists of columns, and what is behind them. -/
  names : ∀ p : Char → Bool, spanSlices? p text = some (text.takeWhile p, text.dropWhile p)
  /-- What is behind the arrow of a relation. -/
  arrows : ∀ rest, text = '-' :: '>' :: rest ∨ text = '<' :: '-' :: rest →
    sliceFrom? text 2 = some rest
  /-- The bounds of a range. -/
  bounds : splitRangeSlices? text = some (splitRangeFrom {} text)
  /-- What is behind a literal. -/
  literals : readQuotedSlice? text = some (readQuoted text)
  /-- A text without its wildcards. -/
  wildcards : splitWildcardsSlice? text = some (splitWildcards text)
  /-- A projection inside of brackets, and what is behind it. -/
  projections : splitProjectionSlices? text = some (splitProjection text)

theorem slicesTaken (text : List Char) : SlicesTaken text where
  pieces sep := splitTopSlices?_eq sep text
  parts := splitPartsSlices?_eq text
  groups part hpart := by
    have hhead := head?_trim_of_head? rfl (head?_of_mem_splitPartsFrom text hpart)
    obtain ⟨rest, hrest⟩ := List.head?_eq_some_iff.mp hhead
    rw [hrest]
    exact splitGroupSlices?_eq (.inr rfl) rest
  inside _ ho := unwrapGroupSlice?_eq ho text
  operands _ hkey := splitKeywordSlices?_eq hkey text
  behindKeyword _ hkey := stripKeywordSlice?_eq hkey text
  names p := spanSlices?_eq p text
  arrows rest h := by
    rcases h with rfl | rfl
    · exact sliceFrom?_append ['-', '>'] rest
    · exact sliceFrom?_append ['<', '-'] rest
  bounds := splitRangeSlices?_eq text
  literals := readQuotedSlice?_eq text
  wildcards := splitWildcardsSlice?_eq text
  projections := splitProjectionSlices?_eq text

end Grammar

/-- **Behind the check for balance slicing is safe.** Where the check of a whole text passes,
reading it never finds a group or a literal without an end. And every slice of any text that is
taken on the way is in order, within the text, and between characters. -/
theorem parse_slices_safely (catalog : Catalog) (text : String) :
    (Grammar.isBalanced text.toList = true → ∀ fragment,
      parse catalog text ≠ .error (.malformed .unclosedBracket fragment) ∧
        parse catalog text ≠ .error (.malformed .unterminatedString fragment)) ∧
    ∀ piece : List Char, Grammar.SlicesTaken piece := by
  refine ⟨fun hbalanced fragment => ?_, Grammar.slicesTaken⟩
  have hnothing : Grammar.NothingOpen (Grammar.readStatements catalog text.toList) :=
    Grammar.nothingOpen_readStatements hbalanced
  constructor
  · intro h
    cases hnothing _ _ h
  · intro h
    cases hnothing _ _ h

/-- A bracket, a semicolon and a character of two bytes in a literal. -/
theorem parse_slices_safely_titles :
    let text := "[Where posts:title (\"é];\" .. \"(\")]"
    Grammar.isBalanced text.toList = true ∧
      (∀ fragment, parse .blog text ≠ .error (.malformed .unterminatedString fragment)) ∧
        Grammar.splitTopSlices? ';' "é;b".toList = some ["é".toList, "b".toList] := by
  intro text
  have hbalanced : Grammar.isBalanced text.toList = true := by decide
  obtain ⟨hclosed, hslices⟩ := parse_slices_safely .blog text
  exact ⟨hbalanced, fun fragment => (hclosed hbalanced fragment).2, (hslices _).pieces ';'⟩

end TableQuery
