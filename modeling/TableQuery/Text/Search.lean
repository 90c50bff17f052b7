import TableQuery.Text.Lowercase

/-!
# Finding a text in another

The three ways in which a needle may stand in a haystack, and the choice whether case counts.
Storage filters and query conditions share them, so that both sides of a lookup agree on what a
match is.
-/

namespace TableQuery

/-- Where in the haystack the needle has to stand. -/
inductive MatchMode where
  | contains
  | startsWith
  | endsWith
deriving DecidableEq, Repr

namespace Text

/-- Whether `needle` occurs in the text as a run of neighbouring characters. -/
def hasInfix (needle : List Char) : List Char → Bool
  | [] => needle.isEmpty
  | c :: cs => needle.isPrefixOf (c :: cs) || hasInfix needle cs

theorem hasInfix_iff {needle text : List Char} :
    hasInfix needle text = true ↔ needle <:+: text := by
  induction text with
  | nil => simp [hasInfix]
  | cons c cs ih => simp [hasInfix, ih, List.infix_cons_iff]

end Text

namespace MatchMode

/-- The word that names the mode. -/
def name : MatchMode → String
  | contains => "contains"
  | startsWith => "starts_with"
  | endsWith => "ends_with"

/-- Whether `needle` stands in `haystack` where the mode asks for it. -/
def finds (mode : MatchMode) (needle haystack : List Char) : Bool :=
  match mode with
  | contains => Text.hasInfix needle haystack
  | startsWith => needle.isPrefixOf haystack
  | endsWith => needle.isSuffixOf haystack

/-- As `finds`, after lowering both texts when case does not count. -/
def findsFolded (mode : MatchMode) (ignoreCase : Bool) (needle haystack : List Char) : Bool :=
  if ignoreCase then mode.finds (Text.lowercase needle) (Text.lowercase haystack)
  else mode.finds needle haystack

end MatchMode

end TableQuery
