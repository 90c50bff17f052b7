import TableQuery.Error

/-!
# String literals

A string literal stands between quotes. Inside it a backslash makes the next character stand for
itself, whatever it is; written text escapes exactly the quote and the backslash. So every string
has one written form, and reading takes that form and a few more.
-/

namespace TableQuery

namespace Grammar

/-- A fault of the grammar at a piece of text. -/
def fail {α : Type} (fault : GrammarFault) (fragment : List Char) : Except Error α :=
  .error (.malformed fault (String.ofList fragment))

/-- The characters of a string between its quotes. -/
def escapeQuoted : List Char → List Char
  | [] => []
  | c :: cs =>
    if c == '"' || c == '\\' then '\\' :: c :: escapeQuoted cs else c :: escapeQuoted cs

/-- The literal of a string. -/
def writeQuoted (text : List Char) : List Char :=
  '"' :: escapeQuoted text ++ ['"']

/-- The content of a literal behind its opening quote, and what follows its closing quote;
`escaped` says that a backslash was just read. -/
def readQuotedTail? (escaped : Bool) : List Char → Option (List Char × List Char)
  | [] => none
  | c :: cs =>
    if escaped then (readQuotedTail? false cs).map fun r => (c :: r.1, r.2)
    else if c == '\\' then readQuotedTail? true cs
    else if c == '"' then some ([], cs)
    else (readQuotedTail? false cs).map fun r => (c :: r.1, r.2)

/-- The content of the literal that a text begins with, and what follows it. -/
def readQuoted : List Char → Except Error (List Char × List Char)
  | '"' :: cs =>
    match readQuotedTail? false cs with
    | some r => .ok r
    | none => fail .unterminatedString ('"' :: cs)
  | text => fail .noString text

theorem length_readQuotedTail? {text : List Char} :
    ∀ {escaped : Bool} {inside rest : List Char},
      readQuotedTail? escaped text = some (inside, rest) → rest.length < text.length := by
  induction text with
  | nil => intro e i r h; simp [readQuotedTail?] at h
  | cons c cs ih =>
    have mapped : ∀ {i r : List Char},
        ((readQuotedTail? false cs).map fun r => (c :: r.1, r.2)) = some (i, r) →
          r.length < (c :: cs).length := by
      intro i r h
      obtain ⟨q, hq, heq⟩ := Option.map_eq_some_iff.mp h
      simp only [Prod.mk.injEq] at heq
      rw [← heq.2]
      exact Nat.lt_succ_of_lt (ih hq)
    intro e i r h
    simp only [readQuotedTail?] at h
    split at h
    · exact mapped h
    · split at h
      · exact Nat.lt_succ_of_lt (ih h)
      · split at h
        · simp only [Option.some.injEq, Prod.mk.injEq] at h
          rw [← h.2]
          exact Nat.lt_succ_self _
        · exact mapped h

/-- A literal takes up some of its text. -/
theorem length_readQuoted {text : List Char} {r : List Char × List Char}
    (h : readQuoted text = .ok r) : r.2.length < text.length := by
  unfold readQuoted at h
  split at h
  · split at h
    case h_1 hr =>
      simp only [Except.ok.injEq] at h
      subst h
      exact Nat.lt_succ_of_lt (length_readQuotedTail? hr)
    case h_2 => simp [fail] at h
  · simp [fail] at h

end Grammar

end TableQuery
