/-!
# ASCII letters, and the characters of a name

Keywords, names and a few comparisons of the query language look at ASCII alone: a letter outside
ASCII is never folded and never belongs to a name. Texts are lists of characters here, which is
the form that the grammar reads and the printer writes.
-/

namespace TableQuery

namespace Text

/-! ### Folding -/

/-- The text with the ASCII capitals lowered; every other character stays. -/
def lowerAscii (text : List Char) : List Char :=
  text.map Char.toLower

/-- Equality up to the case of ASCII letters. -/
def sameIgnoringCase (a b : List Char) : Bool :=
  lowerAscii a == lowerAscii b

@[simp] theorem length_lowerAscii (text : List Char) :
    (lowerAscii text).length = text.length := by
  simp [lowerAscii]

theorem sameIgnoringCase_self (text : List Char) : sameIgnoringCase text text = true := by
  simp [sameIgnoringCase]

/-! ### Character classes -/

/-- The blanks that separate keywords: space, tab, line feed, form feed, carriage return. -/
def isAsciiBlank (c : Char) : Bool :=
  c == ' ' || c == '\t' || c == '\n' || c == '\x0c' || c == '\r'

/-- A character of a name: an ASCII letter, an ASCII digit or an underscore. -/
def isNameChar (c : Char) : Bool :=
  c.isAlphanum || c == '_'

/-- A name is one or more name characters; a digit may come first. -/
def isName (text : List Char) : Bool :=
  !text.isEmpty && text.all isNameChar

/-- Splits the longest run of name characters off the front. -/
def takeName (text : List Char) : List Char × List Char :=
  (text.takeWhile isNameChar, text.dropWhile isNameChar)

theorem takeName_append (text : List Char) :
    (takeName text).1 ++ (takeName text).2 = text :=
  List.takeWhile_append_dropWhile

end Text

end TableQuery
