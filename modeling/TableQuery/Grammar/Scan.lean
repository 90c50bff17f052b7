import TableQuery.Text.Ascii
import TableQuery.Text.Blank

/-!
# Scanning at the top level

Query text is taken apart from the outside in: statements at semicolons, stages at bars, operands
at keywords. What separates must stand at the *top level*, outside string literals and outside
brackets. A `Scan` is what has to be remembered about the text read so far to know that, and every
way of cutting a text below threads one through the characters.

A cut text is a `Pieces`: the first piece, and those behind the separators.
-/

namespace TableQuery

namespace Grammar

open Text

/-! ### The state of a scan -/

/-- What is known about the text read so far: the number of open brackets, whether a string
literal is open and its last character was an escaping backslash, and whether some bracket closed
that was never opened. Brackets are counted without regard to their kind. -/
structure Scan where
  depth : Nat := 0
  quoted : Bool := false
  escaped : Bool := false
  underflow : Bool := false
deriving DecidableEq, Repr

namespace Scan

/-- Reads one more character. -/
def step (s : Scan) (c : Char) : Scan :=
  if s.quoted then
    if s.escaped then { s with escaped := false }
    else if c == '\\' then { s with escaped := true }
    else if c == '"' then { s with quoted := false }
    else s
  else if c == '"' then { s with quoted := true }
  else if c == '(' || c == '[' then { s with depth := s.depth + 1 }
  else if c == ')' || c == ']' then
    if s.depth == 0 then { s with underflow := true } else { s with depth := s.depth - 1 }
  else s

/-- The next character is at the top level. An opening bracket at depth zero is so itself. -/
def atTop (s : Scan) : Bool :=
  !s.quoted && s.depth == 0

/-- Reads a text. -/
def run (s : Scan) (text : List Char) : Scan :=
  text.foldl step s

/-- Nothing is left open, and no bracket closed too often. -/
def isBalanced (s : Scan) : Bool :=
  s.atTop && !s.underflow

end Scan

/-- Every string literal and every bracket of the text is closed. -/
def isBalanced (text : List Char) : Bool :=
  (Scan.run {} text).isBalanced

/-! ### Pieces -/

/-- A text that has been cut: its first piece, and those behind the separators. -/
abbrev Pieces := List Char × List (List Char)

namespace Pieces

/-- All the pieces. -/
def toList (p : Pieces) : List (List Char) :=
  p.1 :: p.2

/-- Puts a character in front of the first piece. -/
def grow (c : Char) (p : Pieces) : Pieces :=
  (c :: p.1, p.2)

/-- Starts a new first piece. -/
def cut (p : Pieces) : Pieces :=
  ([], p.1 :: p.2)

end Pieces

/-- Cuts at every occurrence of a character, wherever it stands. -/
def splitOn (sep : Char) : List Char → Pieces
  | [] => ([], [])
  | c :: cs => if c == sep then (splitOn sep cs).cut else (splitOn sep cs).grow c

/-- Cuts at every occurrence of a character at the top level. -/
def splitTopFrom (sep : Char) (s : Scan) : List Char → Pieces
  | [] => ([], [])
  | c :: cs =>
    if s.atTop && c == sep then (splitTopFrom sep (s.step c) cs).cut
    else (splitTopFrom sep (s.step c) cs).grow c

/-- Cuts a text at every occurrence of a character at the top level. -/
def splitTop (sep : Char) (text : List Char) : Pieces :=
  splitTopFrom sep {} text

/-- Cuts in front of every square bracket that opens at the top level; each piece behind a cut
begins with its bracket. -/
def splitPartsFrom (s : Scan) : List Char → Pieces
  | [] => ([], [])
  | c :: cs =>
    if s.atTop && c == '[' then ((splitPartsFrom (s.step c) cs).grow c).cut
    else (splitPartsFrom (s.step c) cs).grow c

/-- Cuts a text in front of every square bracket that opens at the top level. -/
def splitParts (text : List Char) : Pieces :=
  splitPartsFrom {} text

/-! ### Keywords -/

/-- The text starts with the keyword in any case, and an ASCII blank follows it. -/
def startsKeyword (keyword text : List Char) : Bool :=
  sameIgnoringCase (text.take keyword.length) keyword &&
    (text.drop keyword.length).head?.any isAsciiBlank

/-- Cuts at every keyword at the top level that has an ASCII blank on both sides. The blank in
front goes with the keyword and the one behind stays, where it may serve the next keyword.
`skip` characters of a keyword found before are still to be passed over. -/
def splitKeywordFrom (keyword : List Char) (s : Scan) (skip : Nat) : List Char → Pieces
  | [] => ([], [])
  | c :: cs =>
    match skip with
    | n + 1 => splitKeywordFrom keyword (s.step c) n cs
    | 0 =>
      if s.atTop && isAsciiBlank c && startsKeyword keyword cs then
        (splitKeywordFrom keyword (s.step c) keyword.length cs).cut
      else (splitKeywordFrom keyword (s.step c) 0 cs).grow c

/-- Cuts a text at every keyword at the top level. -/
def splitKeyword (keyword : String) (text : List Char) : Pieces :=
  splitKeywordFrom keyword.toList {} 0 text

/-- What follows a keyword in any case at the start of a text. The keyword must be the whole text
or have an ASCII blank behind it, and the blanks behind it are dropped. -/
def stripKeyword (keyword : String) (text : List Char) : Option (List Char) :=
  let word := keyword.toList
  let rest := text.drop word.length
  if sameIgnoringCase (text.take word.length) word then
    match rest with
    | [] => some []
    | c :: _ => if isAsciiBlank c then some (trimStart rest) else none
  else none

/-! ### Groups -/

/-- The text up to the bracket that closes the group, and the text behind that bracket. -/
def closeGroup (s : Scan) : List Char → Option (List Char × List Char)
  | [] => none
  | c :: cs =>
    let s := s.step c
    if s.depth == 0 && !s.quoted then some ([], cs)
    else (closeGroup s cs).map fun r => (c :: r.1, r.2)

/-- The inside of the group that a text begins with, and the text behind the group. -/
def splitGroup : List Char → Option (List Char × List Char)
  | [] => none
  | c :: cs => closeGroup (Scan.step {} c) cs

/-- The inside of a text that is one group with the given opening bracket. -/
def unwrapGroup (opening : Char) (text : List Char) : Option (List Char) :=
  if text.head? == some opening then
    match splitGroup text with
    | some (inside, []) => some inside
    | _ => none
  else none

/-! ### Lengths

No piece is longer than the text it was cut from; reading an expression recurses into pieces and
ends for that reason. -/

theorem length_splitKeywordFrom (keyword : List Char) (text : List Char) :
    ∀ (s : Scan) (skip : Nat), ∀ p ∈ (splitKeywordFrom keyword s skip text).toList,
      p.length ≤ text.length := by
  induction text with
  | nil => intro s skip p hp; simp_all [splitKeywordFrom, Pieces.toList]
  | cons c cs ih =>
    intro s skip p hp
    have step : ∀ s skip, ∀ p ∈ (splitKeywordFrom keyword s skip cs).toList,
        p.length ≤ (c :: cs).length := fun s skip p hp =>
      Nat.le_succ_of_le (ih s skip p hp)
    cases skip with
    | succ n => exact step _ _ p hp
    | zero =>
      simp only [splitKeywordFrom] at hp
      split at hp
      · rcases List.mem_cons.mp hp with rfl | hp
        · simp [Pieces.cut]
        · exact step _ _ p hp
      · rcases List.mem_cons.mp hp with rfl | hp
        · exact Nat.succ_le_succ (ih _ _ _ (List.mem_cons_self ..))
        · exact step _ _ p (List.mem_cons_of_mem _ hp)

theorem length_le_of_mem_splitKeyword {keyword : String} {text p : List Char}
    (h : p ∈ (splitKeyword keyword text).toList) : p.length ≤ text.length :=
  length_splitKeywordFrom _ _ _ _ p h

theorem length_stripKeyword {keyword : String} {text rest : List Char}
    (h : stripKeyword keyword text = some rest) :
    rest.length + keyword.toList.length ≤ text.length := by
  unfold stripKeyword at h
  simp only at h
  split at h
  case isFalse => simp at h
  case isTrue hsame =>
    have hlen : (text.take keyword.toList.length).length = keyword.toList.length := by
      have h := congrArg List.length (by simpa [sameIgnoringCase] using hsame :
        lowerAscii (text.take keyword.toList.length) = lowerAscii keyword.toList)
      simpa using h
    have hle : (text.drop keyword.toList.length).length + keyword.toList.length
        ≤ text.length := by
      simp only [List.length_take] at hlen
      simp only [List.length_drop]
      omega
    split at h
    case h_1 hnil => simp_all
    case h_2 hcons =>
      split at h
      · have heq := Option.some.inj h
        have htrim := length_trimStart_le (text.drop keyword.toList.length)
        rw [← heq]
        omega
      · simp at h

theorem length_closeGroup {text : List Char} : ∀ {s : Scan} {inside rest : List Char},
    closeGroup s text = some (inside, rest) → inside.length + rest.length + 1 = text.length := by
  induction text with
  | nil => intro s inside rest h; simp [closeGroup] at h
  | cons c cs ih =>
    intro s inside rest h
    simp only [closeGroup] at h
    split at h
    · simp only [Option.some.injEq, Prod.mk.injEq] at h
      obtain ⟨rfl, rfl⟩ := h
      simp
    · obtain ⟨r, hr, heq⟩ := Option.map_eq_some_iff.mp h
      simp only [Prod.mk.injEq] at heq
      obtain ⟨rfl, rfl⟩ := heq
      have := ih hr
      simp only [List.length_cons]
      omega

theorem length_unwrapGroup {opening : Char} {text inside : List Char}
    (h : unwrapGroup opening text = some inside) : inside.length < text.length := by
  unfold unwrapGroup at h
  split at h
  case isFalse => simp at h
  case isTrue =>
    split at h
    case h_2 => simp at h
    case h_1 x i hi =>
      simp only [Option.some.injEq] at h
      subst h
      match text, hi with
      | c :: cs, hi =>
        have := length_closeGroup (show closeGroup _ cs = some (i, []) from hi)
        simp only [List.length_cons, List.length_nil] at *
        omega

end Grammar

end TableQuery
