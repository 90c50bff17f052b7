import TableQuery.Proofs.Grammar.Pieces
import TableQuery.Proofs.Text.Slices

/-!
# Cuts by offsets

The cuts of query text are defined here once more, by the offsets at which they are made.
A scan goes over the text and tells of each character where it stands
(`TableQuery.Grammar.Scan.meets`), offsets are calculated from that, one byte for a blank,
a bracket or a dot, as many as the keyword has for a keyword, and slices are taken from
one offset to another. Nothing about the calculation says that there is such a slice.

There always is one: **cut by offsets, a text has the pieces that it has**. Each loop is
followed with the text in three parts, `before ++ piece ++ rest`: the current piece begins
behind `before`, and `rest` is still to be scanned.
-/

namespace TableQuery

namespace Grammar

open Text

open String (utf8Len utf8Len_append utf8Len_cons utf8Len_nil utf8Len_eq_zero)

/-! ### What a scan meets -/

/-- A character with its offset, and whether it stands at the top level. -/
structure Met where
  offset : Nat
  char : Char
  top : Bool

/-- What a scan meets in a text that begins at an offset. -/
def Scan.meets (s : Scan) (offset : Nat) : List Char → List Met
  | [] => []
  | c :: cs => ⟨offset, c, s.atTop⟩ :: meets (s.step c) (offset + c.utf8Size) cs

/-! ### Characters -/

/-- The pieces between the separators at the top level; the current one begins at `start`. -/
def topSlices? (text : List Char) (sep : Char) (start : Nat) : List Met → Option (List (List Char))
  | [] => do return [← sliceFrom? text start]
  | m :: rest =>
    if m.top && m.char == sep then do
      let piece ← slice? text start m.offset
      return piece :: (← topSlices? text sep (m.offset + m.char.utf8Size) rest)
    else topSlices? text sep start rest

theorem topSlices?_meets {text : List Char} {sep : Char} (rest : List Char) :
    ∀ (s : Scan) (before piece : List Char), text = before ++ piece ++ rest →
      topSlices? text sep (utf8Len before) (s.meets (utf8Len (before ++ piece)) rest) =
        some ((splitTopFrom sep s rest).growAll piece).toList := by
  induction rest with
  | nil =>
    rintro s before piece rfl
    rw [List.append_nil, Scan.meets, topSlices?, sliceFrom?_append]
    simp [splitTopFrom, Pieces.growAll, Pieces.toList]
  | cons c cs ih =>
    intro s before piece htext
    rw [Scan.meets, topSlices?, splitTopFrom, ← utf8Len_append_singleton]
    split
    case isTrue =>
      have hnext := ih (s.step c) (before ++ piece ++ [c]) [] (by rw [htext]; simp)
      rw [List.append_nil] at hnext
      rw [hnext, htext, slice?_append]
      simp [Pieces.growAll, Pieces.toList, Pieces.cut]
    case isFalse =>
      have hnext := ih (s.step c) before (piece ++ [c]) (by rw [htext]; simp)
      rw [← List.append_assoc] at hnext
      rw [hnext]
      simp [Pieces.growAll, Pieces.toList, Pieces.grow]

/-- The pieces between the separators at the top level. -/
def splitTopSlices? (sep : Char) (text : List Char) : Option (List (List Char)) :=
  topSlices? text sep 0 (Scan.meets {} 0 text)

theorem splitTopSlices?_eq (sep : Char) (text : List Char) :
    splitTopSlices? sep text = some (splitTop sep text).toList :=
  topSlices?_meets text {} [] [] rfl

/-! ### Keywords -/

/-- The keyword stands at an offset. -/
def keywordAt (keyword text : List Char) (offset : Nat) : Bool :=
  (slice? text offset (offset + utf8Len keyword)).any fun word => sameIgnoringCase word keyword

theorem utf8Len_of_sameIgnoringCase {keyword word : List Char} (hkey : IsKeyword keyword)
    (hsame : sameIgnoringCase word keyword = true) : utf8Len word = utf8Len keyword := by
  rw [utf8Len_of_isNameChar (isNameChar_of_sameIgnoringCase hsame hkey),
    utf8Len_of_isNameChar hkey, length_of_sameIgnoringCase hsame]

/-- A word that is the keyword has as many bytes as characters, so it is found either way. -/
theorem keywordAt_append {keyword : List Char} (hkey : IsKeyword keyword)
    (front rest : List Char) :
    keywordAt keyword (front ++ rest) (utf8Len front) =
      sameIgnoringCase (rest.take keyword.length) keyword := by
  rw [keywordAt, Bool.eq_iff_iff, Option.any_eq_true]
  constructor
  · rintro ⟨word, hword, hsame⟩
    obtain ⟨front', back, htext, hfront, -⟩ := exists_of_slice? hword
    rw [List.append_assoc] at htext
    obtain ⟨text, rfl, hrest⟩ := exists_append_of_utf8Len_le htext (Nat.le_of_eq hfront)
    have hnil : text = [] := by
      rw [utf8Len_append] at hfront
      exact utf8Len_eq_zero.mp (by omega)
    subst hnil
    rw [hrest, List.nil_append, ← length_of_sameIgnoringCase hsame, List.take_left]
    exact hsame
  · intro hsame
    refine ⟨_, ?_, hsame⟩
    have hslice := slice?_append front (rest.take keyword.length) (rest.drop keyword.length)
    rw [List.append_assoc, List.take_append_drop, utf8Len_append,
      utf8Len_of_sameIgnoringCase hkey hsame] at hslice
    exact hslice

/-- The keyword stands at an offset with an ASCII blank behind it. What is behind it is sliced off
only where it stands there. -/
def keywordDelimited? (keyword text : List Char) (offset : Nat) : Option Bool :=
  if keywordAt keyword text offset then do
    return (← sliceFrom? text (offset + utf8Len keyword)).head?.any isAsciiBlank
  else some false

/-- What is behind a keyword can be sliced off. -/
theorem sliceFrom?_keyword {keyword : List Char} (hkey : IsKeyword keyword) (front : List Char)
    {rest : List Char} (hsame : sameIgnoringCase (rest.take keyword.length) keyword = true) :
    sliceFrom? (front ++ rest) (utf8Len front + utf8Len keyword) =
      some (rest.drop keyword.length) := by
  have hslice := sliceFrom?_append (front ++ rest.take keyword.length) (rest.drop keyword.length)
  rwa [List.append_assoc, List.take_append_drop, utf8Len_append,
    utf8Len_of_sameIgnoringCase hkey hsame] at hslice

theorem keywordDelimited?_append {keyword : List Char} (hkey : IsKeyword keyword)
    (front rest : List Char) :
    keywordDelimited? keyword (front ++ rest) (utf8Len front) =
      some (startsKeyword keyword rest) := by
  rw [keywordDelimited?, keywordAt_append hkey, startsKeyword]
  cases hsame : sameIgnoringCase (rest.take keyword.length) keyword with
  | false => rfl
  | true =>
    rw [if_pos rfl, sliceFrom?_keyword hkey front hsame]
    rfl

/-- The pieces between the keywords at the top level; the current one begins at `start`, and
nothing in front of `resume` is looked at again. -/
def keywordSlices? (keyword text : List Char) (start resume : Nat) :
    List Met → Option (List (List Char))
  | [] => do return [← sliceFrom? text start]
  | m :: rest =>
    if decide (m.offset < resume) || !m.top || !isAsciiBlank m.char then
      keywordSlices? keyword text start resume rest
    else do
      if ← keywordDelimited? keyword text (m.offset + 1) then
        let behind := m.offset + 1 + utf8Len keyword
        let piece ← slice? text start m.offset
        return piece :: (← keywordSlices? keyword text behind behind rest)
      else keywordSlices? keyword text start resume rest

/-- What is in front of `resume` is passed over. -/
theorem keywordSlices?_skip {keyword text : List Char} {start resume : Nat}
    (word rest : List Char) : ∀ {s : Scan} {offset : Nat}, offset + utf8Len word ≤ resume →
      keywordSlices? keyword text start resume (s.meets offset (word ++ rest)) =
        keywordSlices? keyword text start resume
          ((s.run word).meets (offset + utf8Len word) rest) := by
  induction word with
  | nil => exact fun _ => rfl
  | cons c cs ih =>
    intro s offset hle
    have hpos := c.utf8Size_pos
    rw [utf8Len_cons] at hle ⊢
    have hskip : (decide (offset < resume) || !s.atTop || !isAsciiBlank c) = true := by
      rw [decide_eq_true (by omega)]
      rfl
    rw [List.cons_append, Scan.meets, keywordSlices?, if_pos hskip, ih (by omega), Scan.run_cons,
      Nat.add_assoc, Nat.add_comm c.utf8Size]

/-- One character: at a keyword that follows it the current piece ends. -/
theorem keywordSlices?_cons {keyword : List Char} (hkey : IsKeyword keyword)
    {text before piece cs : List Char} {c : Char} (htext : text = before ++ piece ++ c :: cs)
    {s : Scan} {resume : Nat} (hresume : resume ≤ utf8Len (before ++ piece)) :
    let behind := utf8Len (before ++ piece ++ [c] ++ keyword)
    let rest := (s.step c).meets (utf8Len (before ++ piece ++ [c])) cs
    keywordSlices? keyword text (utf8Len before) resume
        (s.meets (utf8Len (before ++ piece)) (c :: cs)) =
      if s.atTop && isAsciiBlank c && startsKeyword keyword cs then
        (keywordSlices? keyword text behind behind rest).map (piece :: ·)
      else keywordSlices? keyword text (utf8Len before) resume rest := by
  intro behind rest
  have hbehind : decide (utf8Len (before ++ piece) < resume) = false :=
    decide_eq_false (by omega)
  rw [Scan.meets, keywordSlices?, hbehind, ← utf8Len_append_singleton]
  by_cases hblank : (s.atTop && isAsciiBlank c) = true
  case neg =>
    have hno : (false || !s.atTop || !isAsciiBlank c) = true := by
      simpa [or_iff_not_imp_left] using hblank
    have hcut : ¬(s.atTop && isAsciiBlank c && startsKeyword keyword cs) = true := by
      simp [hblank]
    rw [if_pos hno, if_neg hcut]
  case pos =>
    obtain ⟨htop, hc⟩ := Bool.and_eq_true _ _ ▸ hblank
    have hyes : ¬(false || !s.atTop || !isAsciiBlank c) = true := by simp [htop, hc]
    have hoffset : utf8Len (before ++ piece) + 1 = utf8Len (before ++ piece ++ [c]) := by
      rw [utf8Len_append_singleton, utf8Size_of_isAsciiBlank hc]
    have hword : keywordDelimited? keyword text (utf8Len (before ++ piece ++ [c])) =
        some (startsKeyword keyword cs) := by
      rw [htext, List.append_cons]
      exact keywordDelimited?_append hkey _ cs
    have hpiece : slice? text (utf8Len before) (utf8Len (before ++ piece)) = some piece := by
      rw [htext, slice?_append]
    dsimp only
    rw [if_neg hyes, hoffset, hword, hblank, Bool.true_and, hpiece, ← utf8Len_append]
    cases startsKeyword keyword cs with
    | false => rfl
    | true => exact Option.map_eq_bind.symm

/-- By induction on the length of what is still to be scanned, since behind a keyword the scan goes
on after its last character. -/
theorem keywordSlices?_meets {keyword text : List Char} (hkey : IsKeyword keyword)
    (length : Nat) : ∀ (s : Scan) (before piece : List Char) {rest : List Char} {resume : Nat},
      rest.length ≤ length → text = before ++ piece ++ rest → resume ≤ utf8Len (before ++ piece) →
        keywordSlices? keyword text (utf8Len before) resume
            (s.meets (utf8Len (before ++ piece)) rest) =
          some ((splitKeywordFrom keyword s 0 rest).growAll piece).toList := by
  have hend : ∀ {s : Scan} {before piece : List Char} {resume : Nat}, text = before ++ piece ++ [] →
      keywordSlices? keyword text (utf8Len before) resume (s.meets (utf8Len (before ++ piece)) []) =
        some ((splitKeywordFrom keyword s 0 []).growAll piece).toList := by
    intro s before piece resume htext
    rw [htext, List.append_nil, Scan.meets, keywordSlices?, sliceFrom?_append]
    simp [splitKeywordFrom, Pieces.growAll, Pieces.toList]
  induction length with
  | zero =>
    intro s before piece rest resume hlength htext _
    obtain rfl := List.length_eq_zero_iff.mp (Nat.le_zero.mp hlength)
    exact hend htext
  | succ length ih =>
    intro s before piece rest resume hlength htext hresume
    cases rest with
    | nil => exact hend htext
    | cons c cs =>
      have hcs : cs.length ≤ length := Nat.le_of_succ_le_succ hlength
      rw [keywordSlices?_cons hkey htext hresume, splitKeywordFrom]
      split
      case isFalse =>
        have hresume' : resume ≤ utf8Len (before ++ (piece ++ [c])) := by
          rw [← List.append_assoc, utf8Len_append_singleton]
          omega
        have hnext := ih (s.step c) before (piece ++ [c]) hcs (by rw [htext]; simp) hresume'
        rw [← List.append_assoc] at hnext
        rw [hnext]
        simp [Pieces.growAll, Pieces.toList, Pieces.grow]
      case isTrue hcut =>
        obtain ⟨hsame, -⟩ := Bool.and_eq_true _ _ ▸ (Bool.and_eq_true _ _ ▸ hcut).2
        -- the scan goes on behind the keyword, where the next piece begins
        obtain ⟨word, rest, rfl, hword⟩ : ∃ word rest, cs = word ++ rest ∧
            sameIgnoringCase word keyword = true :=
          ⟨_, _, (List.take_append_drop keyword.length cs).symm, hsame⟩
        have hlen := utf8Len_of_sameIgnoringCase hkey hword
        have hbehind : utf8Len (before ++ piece ++ [c] ++ keyword) =
            utf8Len (before ++ piece ++ [c]) + utf8Len word := by
          rw [utf8Len_append, hlen]
        have hlength' : rest.length ≤ length := by
          rw [List.length_append] at hcs
          omega
        have hnext := ih ((s.step c).run word) (before ++ piece ++ [c] ++ word) [] hlength'
          (by rw [htext]; simp) (Nat.le_refl _)
        rw [List.append_nil, utf8Len_append (before ++ piece ++ [c])] at hnext
        rw [hbehind, keywordSlices?_skip word rest (Nat.le_refl _), hnext,
          ← length_of_sameIgnoringCase hword, splitKeywordFrom_skip]
        simp [Pieces.growAll, Pieces.toList, Pieces.cut]

/-- The pieces between the keywords at the top level. -/
def splitKeywordSlices? (keyword : String) (text : List Char) : Option (List (List Char)) :=
  keywordSlices? keyword.toList text 0 0 (Scan.meets {} 0 text)

theorem splitKeywordSlices?_eq {keyword : String} (hkey : IsKeyword keyword.toList)
    (text : List Char) :
    splitKeywordSlices? keyword text = some (splitKeyword keyword text).toList :=
  keywordSlices?_meets hkey text.length {} [] [] (Nat.le_refl _) rfl (Nat.le_refl _)

/-- What follows a keyword at the start of a text. -/
def stripKeywordSlice? (keyword : String) (text : List Char) : Option (Option (List Char)) :=
  if keywordAt keyword.toList text 0 then do
    match ← sliceFrom? text (utf8Len keyword.toList) with
    | [] => return some []
    | c :: rest => return if isAsciiBlank c then some (trimStart (c :: rest)) else none
  else some none

theorem stripKeywordSlice?_eq {keyword : String} (hkey : IsKeyword keyword.toList)
    (text : List Char) :
    stripKeywordSlice? keyword text = some (stripKeyword keyword text) := by
  have hword := keywordAt_append hkey [] text
  rw [List.nil_append, utf8Len_nil] at hword
  rw [stripKeywordSlice?, hword, stripKeyword]
  cases hsame : sameIgnoringCase (text.take keyword.toList.length) keyword.toList with
  | false => rfl
  | true =>
    have hrest := sliceFrom?_keyword hkey [] hsame
    rw [List.nil_append, utf8Len_nil, Nat.zero_add] at hrest
    rw [if_pos rfl, hrest]
    cases text.drop keyword.toList.length <;> rfl

/-! ### Groups -/

/-- The offset of the bracket that closes the group; the text begins at an offset itself. -/
def closingOffset? (s : Scan) (offset : Nat) : List Char → Option Nat
  | [] => none
  | c :: cs =>
    let s := s.step c
    if s.depth == 0 && !s.quoted then some offset
    else closingOffset? s (offset + c.utf8Size) cs

/-- The offset of the bracket that closes the group that a text begins with. -/
def groupEnd? : List Char → Option Nat
  | [] => none
  | c :: cs => closingOffset? (Scan.step {} c) c.utf8Size cs

/-- A cut with one more character in front of it. -/
theorem map_offset_cons (offset : Nat) (c : Char) (cut : Option (List Char × List Char)) :
    (cut.map fun r => offset + c.utf8Size + utf8Len r.1) =
      (cut.map fun r => (c :: r.1, r.2)).map fun r => offset + utf8Len r.1 := by
  rw [Option.map_map]
  refine Option.map_congr fun r _ => ?_
  rw [Function.comp_apply, utf8Len_cons]
  omega

theorem closingOffset?_eq (text : List Char) : ∀ (s : Scan) (offset : Nat),
    closingOffset? s offset text = (closeGroup s text).map fun r => offset + utf8Len r.1 := by
  induction text with
  | nil => exact fun _ _ => rfl
  | cons c cs ih =>
    intro s offset
    rw [closingOffset?, closeGroup]
    split
    · rfl
    · rw [ih]
      exact map_offset_cons ..

theorem utf8Size_of_isOpening {c : Char} (h : IsOpening c) : c.utf8Size = 1 := by
  rcases h with rfl | rfl <;> rfl

theorem utf8Size_of_isClosing {c : Char} (h : IsClosing c) : c.utf8Size = 1 := by
  rcases h with rfl | rfl <;> rfl

theorem groupEnd?_eq (opening : Char) (text : List Char) :
    groupEnd? (opening :: text) =
      (splitGroup (opening :: text)).map fun r => utf8Len (opening :: r.1) := by
  rw [groupEnd?, closingOffset?_eq, splitGroup]
  exact Option.map_congr fun r _ => Nat.add_comm ..

theorem slice?_group {opening : Char} (ho : IsOpening opening) (inside rest : List Char) :
    slice? (opening :: (inside ++ rest)) 1 (utf8Len (opening :: inside)) = some inside := by
  have hstart : utf8Len [opening] = 1 := utf8Size_of_isOpening ho ▸ Nat.zero_add _
  have hslice := slice?_append [opening] inside rest
  rwa [hstart, List.append_assoc] at hslice

theorem sliceFrom?_group (opening : Char) {closing : Char} (hc : IsClosing closing)
    (inside rest : List Char) :
    sliceFrom? (opening :: (inside ++ closing :: rest)) (utf8Len (opening :: inside) + 1) =
      some rest := by
  have hslice := sliceFrom?_append (opening :: inside ++ [closing]) rest
  rwa [utf8Len_append_singleton, utf8Size_of_isClosing hc, List.append_assoc] at hslice

/-- The inside of the group that a text begins with, and the text behind the group. -/
def splitGroupSlices? (text : List Char) : Option (Option (List Char × List Char)) :=
  match groupEnd? text with
  | none => some none
  | some close => do return some (← slice? text 1 close, ← sliceFrom? text (close + 1))

theorem splitGroupSlices?_eq {opening : Char} (ho : IsOpening opening) (text : List Char) :
    splitGroupSlices? (opening :: text) = some (splitGroup (opening :: text)) := by
  rw [splitGroupSlices?, groupEnd?_eq]
  cases hsplit : splitGroup (opening :: text) with
  | none => rfl
  | some r =>
    obtain ⟨inside, rest⟩ := r
    obtain ⟨-, closing, hc, rfl⟩ := balanced_of_splitGroup ho hsplit
    dsimp only [Option.map_some]
    rw [slice?_group ho, sliceFrom?_group opening hc]
    rfl

/-- The inside of a text that is one group with the given opening bracket. -/
def unwrapGroupSlice? (opening : Char) (text : List Char) : Option (Option (List Char)) :=
  if text.head? == some opening then
    match groupEnd? text with
    | none => some none
    | some close =>
      if close + 1 == utf8Len text then (slice? text 1 close).map some else some none
  else some none

theorem unwrapGroupSlice?_eq {opening : Char} (ho : IsOpening opening) (text : List Char) :
    unwrapGroupSlice? opening text = some (unwrapGroup opening text) := by
  rw [unwrapGroupSlice?, unwrapGroup]
  split
  case isFalse => rfl
  case isTrue hhead =>
    obtain ⟨cs, rfl⟩ := List.head?_eq_some_iff.mp (beq_iff_eq.mp hhead)
    rw [groupEnd?_eq]
    cases hsplit : splitGroup (opening :: cs) with
    | none => rfl
    | some r =>
      obtain ⟨inside, rest⟩ := r
      obtain ⟨-, closing, hc, rfl⟩ := balanced_of_splitGroup ho hsplit
      -- the text ends with the bracket if and only if nothing is behind it
      have hlen : utf8Len (opening :: (inside ++ closing :: rest)) =
          utf8Len (opening :: inside) + 1 + utf8Len rest := by
        simp only [utf8Len_cons, utf8Len_append, utf8Size_of_isClosing hc]
        omega
      dsimp only [Option.map_some]
      rw [hlen, slice?_group ho]
      cases rest with
      | nil => rw [utf8Len_nil, Nat.add_zero, beq_self_eq_true]; rfl
      | cons d ds =>
        have hpos := d.utf8Size_pos
        have hbehind : (utf8Len (opening :: inside) + 1 ==
            utf8Len (opening :: inside) + 1 + utf8Len (d :: ds)) = false :=
          beq_eq_false_iff_ne.mpr (by rw [utf8Len_cons d ds]; omega)
        rw [hbehind]
        rfl

/-! ### Parts -/

/-- The offsets of the square brackets that open at the top level. -/
def openings (s : Scan) (offset : Nat) (text : List Char) : List Nat :=
  ((s.meets offset text).filter fun m => m.top && m.char == '[').map Met.offset

/-- The slices from each offset to the next one, and to the end. -/
def sliceAll? (text : List Char) : List Nat → Option (List (List Char))
  | [] => some []
  | [start] => do return [← sliceFrom? text start]
  | start :: stop :: stops => do
    return (← slice? text start stop) :: (← sliceAll? text (stop :: stops))

/-- The parts of a text, and what is in front of them. -/
def splitPartsSlices? (text : List Char) : Option Pieces :=
  match openings {} 0 text with
  | [] => some (text, [])
  | first :: stops => do return (← slice? text 0 first, ← sliceAll? text (first :: stops))

/-- Nothing gets lost between the parts. -/
theorem append_flatten_splitPartsFrom (text : List Char) : ∀ s : Scan,
    (splitPartsFrom s text).1 ++ (splitPartsFrom s text).2.flatten = text := by
  induction text with
  | nil => exact fun _ => rfl
  | cons c cs ih =>
    intro s
    rw [splitPartsFrom]
    split
    · exact congrArg (c :: ·) (ih _)
    · exact congrArg (c :: ·) (ih _)

/-- A piece that begins at an offset and goes up to the pieces that follow it. -/
theorem sliceAll?_cons {text before first : List Char} {parts : List (List Char)}
    {stops : List Nat} (htext : text = before ++ (first ++ parts.flatten))
    (hslices : sliceAll? text stops = some parts)
    (hhead : stops.head? = if parts = [] then none else some (utf8Len (before ++ first))) :
    sliceAll? text (utf8Len before :: stops) = some (first :: parts) := by
  cases stops with
  | nil =>
    -- it ends with the text
    obtain rfl : [] = parts := Option.some.inj hslices
    rw [List.flatten_nil, List.append_nil] at htext
    rw [sliceAll?, htext, sliceFrom?_append]
    rfl
  | cons stop stops =>
    have hne : parts ≠ [] := fun hnil => by rw [if_pos hnil] at hhead; cases hhead
    rw [if_neg hne] at hhead
    obtain rfl := Option.some.inj hhead
    have hslice := slice?_append before first parts.flatten
    rw [List.append_assoc, ← htext] at hslice
    rw [sliceAll?, hslice, hslices]
    rfl

theorem sliceAll?_openings {text : List Char} (rest : List Char) :
    ∀ (s : Scan) (before : List Char), text = before ++ rest →
      sliceAll? text (openings s (utf8Len before) rest) = some (splitPartsFrom s rest).2 ∧
        (openings s (utf8Len before) rest).head? =
          if (splitPartsFrom s rest).2 = [] then none
          else some (utf8Len (before ++ (splitPartsFrom s rest).1)) := by
  induction rest with
  | nil => exact fun _ _ _ => ⟨rfl, rfl⟩
  | cons c cs ih =>
    intro s before htext
    have hcover := append_flatten_splitPartsFrom cs (s.step c)
    obtain ⟨hslices, hhead⟩ := ih (s.step c) (before ++ [c]) (by rw [htext]; simp)
    rw [utf8Len_append_singleton] at hslices hhead
    have hopen : openings s (utf8Len before) (c :: cs) =
        if s.atTop && c == '[' then
          utf8Len before :: openings (s.step c) (utf8Len before + c.utf8Size) cs
        else openings (s.step c) (utf8Len before + c.utf8Size) cs := by
      rw [openings, Scan.meets, List.filter_cons]
      split <;> rfl
    rw [splitPartsFrom, hopen]
    split
    case isFalse => exact ⟨hslices, by rw [hhead, List.append_assoc]; rfl⟩
    case isTrue =>
      rw [List.append_assoc] at hhead
      have htext' := htext.trans (congrArg (fun cs => before ++ c :: cs) hcover.symm)
      exact ⟨sliceAll?_cons htext' hslices hhead, by simp [Pieces.cut]⟩

theorem splitPartsSlices?_eq (text : List Char) :
    splitPartsSlices? text = some (splitParts text) := by
  have hempty : text = [] ++ text := rfl
  obtain ⟨hslices, hhead⟩ := sliceAll?_openings text {} [] hempty
  have hcover := append_flatten_splitPartsFrom text {}
  rw [utf8Len_nil] at hslices hhead
  rw [splitPartsSlices?, splitParts]
  generalize openings {} 0 text = stops at hslices hhead ⊢
  generalize splitPartsFrom {} text = p at hcover hslices hhead ⊢
  obtain ⟨first, parts⟩ := p
  dsimp only at hcover hslices hhead
  have hpieces := sliceAll?_cons hcover.symm hslices hhead
  cases stops with
  | nil =>
    obtain rfl : [] = parts := Option.some.inj hslices
    rw [List.flatten_nil, List.append_nil] at hcover
    rw [hcover]
  | cons stop stops =>
    rw [utf8Len_nil, sliceAll?, hslices] at hpieces
    obtain ⟨piece, hpiece, heq⟩ := Option.bind_eq_some_iff.mp hpieces
    obtain ⟨rfl, -⟩ := List.cons.inj (Option.some.inj heq)
    dsimp only
    rw [hpiece, hslices]
    rfl

/-! ### Ranges -/

/-- The offset of the first of two dots in a row at the top level. -/
def dotsOffset? (previous : Option Met) : List Met → Option Nat
  | [] => none
  | m :: rest =>
    if (previous.any fun p => p.char == '.' && p.top) && m.char == '.' && m.top then
      previous.map Met.offset
    else dotsOffset? (some m) rest

/-- A dot at the top level leaves the scan there. -/
theorem Scan.atTop_step_dot {s : Scan} (h : s.atTop = true) : (s.step '.').atTop = true := by
  simp only [Scan.atTop, Bool.and_eq_true, Bool.not_eq_true'] at h
  simp [Scan.atTop, Scan.step, h.1, h.2]

theorem dotsOffset?_meets (rest : List Char) : ∀ (s : Scan) (offset : Nat) (c : Char),
    dotsOffset? (some ⟨offset, c, s.atTop⟩) ((s.step c).meets (offset + c.utf8Size) rest) =
      (splitRangeFrom s (c :: rest)).map fun r => offset + utf8Len r.1 := by
  induction rest with
  | nil =>
    intro s offset c
    rw [Scan.meets, dotsOffset?, splitRangeFrom, if_neg (by simp)]
    rfl
  | cons d ds ih =>
    intro s offset c
    have hdots : (((some (⟨offset, c, s.atTop⟩ : Met)).any fun p => p.char == '.' && p.top) &&
        d == '.' && (s.step c).atTop) = (s.atTop && c == '.' && (d :: ds).head? == some '.') := by
      rw [Bool.eq_iff_iff]
      simp only [Option.any_some, List.head?_cons, Bool.and_eq_true, beq_iff_eq, Option.some.injEq]
      constructor
      · rintro ⟨⟨⟨hc, htop⟩, hd⟩, -⟩
        exact ⟨⟨htop, hc⟩, hd⟩
      · rintro ⟨⟨htop, rfl⟩, hd⟩
        exact ⟨⟨⟨rfl, htop⟩, hd⟩, Scan.atTop_step_dot htop⟩
    rw [Scan.meets, dotsOffset?, hdots, splitRangeFrom]
    split
    · rfl
    · rw [ih]
      exact map_offset_cons ..

/-- What is cut off at two dots, and the dots. -/
theorem append_of_splitRangeFrom (text : List Char) : ∀ {s : Scan} {lower upper : List Char},
    splitRangeFrom s text = some (lower, upper) → text = lower ++ '.' :: '.' :: upper := by
  induction text with
  | nil => exact fun h => by cases h
  | cons c cs ih =>
    intro s lower upper h
    rw [splitRangeFrom] at h
    split at h
    case isTrue hcut =>
      obtain ⟨rfl, rfl⟩ := Prod.mk.inj (Option.some.inj h)
      simp only [Bool.and_eq_true, beq_iff_eq] at hcut
      obtain ⟨⟨-, rfl⟩, hdot⟩ := hcut
      obtain ⟨cs, rfl⟩ := List.head?_eq_some_iff.mp hdot
      rfl
    case isFalse =>
      obtain ⟨⟨lower', upper'⟩, hrest, heq⟩ := Option.map_eq_some_iff.mp h
      obtain ⟨rfl, rfl⟩ := Prod.mk.inj heq
      exact congrArg (c :: ·) (ih hrest)

/-- The bounds of a range. -/
def splitRangeSlices? (text : List Char) : Option (Option (List Char × List Char)) :=
  match dotsOffset? none (Scan.meets {} 0 text) with
  | none => some none
  | some dots => do return some (← slice? text 0 dots, ← sliceFrom? text (dots + 2))

theorem splitRangeSlices?_eq (text : List Char) :
    splitRangeSlices? text = some (splitRangeFrom {} text) := by
  have hdots : dotsOffset? none (Scan.meets {} 0 text) =
      (splitRangeFrom {} text).map fun r => utf8Len r.1 := by
    cases text with
    | nil => rfl
    | cons c cs =>
      have hrest := dotsOffset?_meets cs {} 0 c
      simp only [Nat.zero_add] at hrest
      rw [Scan.meets, Nat.zero_add]
      exact hrest
  rw [splitRangeSlices?, hdots]
  cases hsplit : splitRangeFrom {} text with
  | none => rfl
  | some r =>
    obtain ⟨lower, upper⟩ := r
    have hlower := slice?_zero lower ('.' :: '.' :: upper)
    have hupper := sliceFrom?_append (lower ++ ['.', '.']) upper
    have htwo : utf8Len ['.', '.'] = 2 := rfl
    rw [utf8Len_append, htwo, List.append_assoc, List.cons_append, List.singleton_append] at hupper
    rw [append_of_splitRangeFrom text hsplit]
    dsimp only [Option.map_some]
    rw [hlower, hupper]
    rfl

end Grammar

end TableQuery
