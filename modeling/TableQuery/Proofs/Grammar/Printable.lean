import TableQuery.Grammar.Statement
import TableQuery.Proofs.Text.Characters

/-!
# What can be printed

Printed statements are to read back as they were, and that cannot hold of every value of
the types: a name with a blank in it prints as two words, a list of one item prints like
a text, and what a text has at its ends may look like a wildcard. The predicates
`Printable` of this file leave out these values and nothing else. Texts are otherwise
arbitrary – they may hold quotes, brackets, keywords and separators – and so are the
shapes of expressions.

All of them can be decided.
-/

namespace TableQuery

open Grammar Text

/-- A name of one or more name characters. -/
def IsName (name : String) : Prop :=
  isName name.toList = true

instance (name : String) : Decidable (IsName name) :=
  inferInstanceAs (Decidable (_ = _))

/-! ### Literals -/

/-- A text whose mode can be told from its wildcards: they must not be mistaken for stars
of the text itself, nor those for them. -/
def MatchMode.Writes : MatchMode → List Char → Prop
  | .contains, _ => True
  | .startsWith, text => text ≠ [] ∧ text.head? ≠ some '*'
  | .endsWith, text => text.getLast? ≠ some '*'

instance : (mode : MatchMode) → (text : List Char) → Decidable (mode.Writes text)
  | .contains, _ => inferInstanceAs (Decidable True)
  | .startsWith, _ => inferInstanceAs (Decidable (_ ∧ _))
  | .endsWith, _ => inferInstanceAs (Decidable (_ ≠ _))

/-- An item whose text does not begin like the mark of another role. -/
def ListItem.Printable (item : ListItem) : Prop :=
  item.role = .required → item.text.toList.head? ≠ some '~' ∧ item.text.toList.head? ≠ some '-'

instance (item : ListItem) : Decidable item.Printable :=
  inferInstanceAs (Decidable (_ → _))

/-- A literal that reads back. -/
def Literal.Printable : Literal → Prop
  | text value _ mode => mode.Writes value.toList
  | dateRange .. | empty | notEmpty => True
  | variableRef name key _ => IsName name ∧ ∀ k ∈ key, IsName k
  | list items => 2 ≤ items.length ∧ ∀ item ∈ items, item.Printable

instance : (l : Literal) → Decidable l.Printable
  | .text .. => inferInstanceAs (Decidable (MatchMode.Writes ..))
  | .dateRange .. | .empty | .notEmpty => inferInstanceAs (Decidable True)
  | .variableRef .. | .list _ => inferInstanceAs (Decidable (_ ∧ _))

/-! ### Expressions -/

/-- A table of the catalog that is not spelled like a connective. -/
def Catalog.Writes (catalog : Catalog) (table : String) : Prop :=
  catalog.hasTable table = true ∧ sameIgnoringCase table.toList "AND".toList = false ∧
    sameIgnoringCase table.toList "OR".toList = false

instance (catalog : Catalog) (table : String) : Decidable (catalog.Writes table) :=
  inferInstanceAs (Decidable (_ ∧ _))

/-- An atom that reads back. The atom that no row satisfies has no written form. -/
def Atom.Printable (catalog : Catalog) : Atom → Prop
  | condition table columns literal => catalog.Writes table ∧
      (∀ names ∈ columns, names ≠ [] ∧ ∀ name ∈ names, IsName name) ∧ literal.Printable
  | relation _ source target => catalog.Writes source ∧ catalog.Writes target
  | never => False

instance (catalog : Catalog) : (a : Atom) → Decidable (a.Printable catalog)
  | .condition .. | .relation .. => inferInstanceAs (Decidable (_ ∧ _))
  | .never => inferInstanceAs (Decidable False)

/-- An expression of atoms that read back, in any shape. -/
def Expression.Printable (catalog : Catalog) (e : Expression) : Prop :=
  ∀ a ∈ e.atoms, a.Printable catalog

instance (catalog : Catalog) (e : Expression) : Decidable (e.Printable catalog) :=
  inferInstanceAs (Decidable (∀ a ∈ e.atoms, a.Printable catalog))

/-! ### Statements -/

/-- A projection that reads back. A list of one column prints like that column. -/
def Projection.Printable : Projection → Prop
  | identity | all => True
  | column name => IsName name
  | columns names => 2 ≤ names.length ∧ ∀ name ∈ names, IsName name

instance : (p : Projection) → Decidable p.Printable
  | .identity | .all => inferInstanceAs (Decidable True)
  | .column _ => inferInstanceAs (Decidable (IsName _))
  | .columns _ => inferInstanceAs (Decidable (_ ∧ _))

/-- The values of arguments: strings, booleans, integers of 64 bits and finite doubles. -/
def Json.IsArgument : Json → Prop
  | str _ | bool _ | num (.float _) => True
  | num (.int n) => -(2 ^ 63) ≤ n ∧ n < 2 ^ 63
  | null | arr _ | obj _ => False

instance : (value : Json) → Decidable value.IsArgument
  | .str _ | .bool _ | .num (.float _) => inferInstanceAs (Decidable True)
  | .num (.int _) => inferInstanceAs (Decidable (_ ∧ _))
  | .null | .arr _ | .obj _ => inferInstanceAs (Decidable False)

/-- An argument that reads back. -/
def Argument.Printable (a : Argument) : Prop :=
  (∀ name ∈ a.name, IsName name) ∧ a.value.IsArgument

instance (a : Argument) : Decidable a.Printable :=
  inferInstanceAs (Decidable (_ ∧ _))

/-- A stage that reads back. -/
structure StageCall.Printable (s : StageCall) : Prop where
  ne_nil : s.name.toList ≠ []
  isStageNameChar : ∀ c ∈ s.name.toList, isStageNameChar c = true
  head : s.name.toList.head? ≠ some '.'
  last : s.name.toList.getLast? ≠ some '.'
  arguments : ∀ a ∈ s.arguments, a.Printable

instance (s : StageCall) : Decidable s.Printable :=
  decidable_of_iff
    (s.name.toList ≠ [] ∧ (∀ c ∈ s.name.toList, isStageNameChar c = true) ∧
      s.name.toList.head? ≠ some '.' ∧ s.name.toList.getLast? ≠ some '.' ∧
      ∀ a ∈ s.arguments, a.Printable)
    ⟨fun ⟨hne, hall, hhead, hlast, hargs⟩ => ⟨hne, hall, hhead, hlast, hargs⟩,
      fun ⟨hne, hall, hhead, hlast, hargs⟩ => ⟨hne, hall, hhead, hlast, hargs⟩⟩

/-- A statement that reads back. The key of a join is written behind the name of the
statement and stands with it only. -/
structure Statement.Printable (catalog : Catalog) (s : Statement) : Prop where
  name : ∀ name ∈ s.name, IsName name ∧ name ∉ reservedNames
  targetKey : ∀ key ∈ s.targetKey, IsName key ∧ s.name ≠ none
  expression : s.expression.Printable catalog
  projection : s.projection.Printable
  stages : ∀ stage ∈ s.stages, stage.Printable

instance (catalog : Catalog) (s : Statement) : Decidable (s.Printable catalog) :=
  decidable_of_iff
    ((∀ name ∈ s.name, IsName name ∧ name ∉ reservedNames) ∧
      (∀ key ∈ s.targetKey, IsName key ∧ s.name ≠ none) ∧
      s.expression.Printable catalog ∧ s.projection.Printable ∧
      ∀ stage ∈ s.stages, stage.Printable)
    ⟨fun ⟨hname, hkey, hexpr, hproj, hstages⟩ => ⟨hname, hkey, hexpr, hproj, hstages⟩,
      fun ⟨hname, hkey, hexpr, hproj, hstages⟩ => ⟨hname, hkey, hexpr, hproj, hstages⟩⟩

end TableQuery
