import TableQuery.Grammar.Literal
import TableQuery.Query.Expression
import TableQuery.Schema.Catalog

/-!
# Reading expressions

`NOT` binds the rest of its clause; apart from it `OR` is cut first and `AND` second, so `AND`
binds closer, and both associate to the left. An operand is a group in parentheses or an atom. The
tables that atoms name have to be in the catalog, while columns are looked at only when a
statement runs.
-/

namespace TableQuery

namespace Grammar

open Text

/-! ### Atoms -/

/-- The table is in the catalog. -/
def checkTable (catalog : Catalog) (name : List Char) : Except Error Unit :=
  if catalog.hasTable (String.ofList name) then .ok ()
  else .error (.unknownTable (String.ofList name))

/-- The columns of an atom, if a colon introduces some, and what follows them. The list ends at a
blank or at a parenthesis. -/
def readColumns : List Char → Except Error (Option (List String) × List Char)
  | ':' :: text =>
    let goesOn := fun c => !(isBlank c || c == '(')
    let names := (splitOn ',' (text.takeWhile goesOn)).toList
    if names.all isName then .ok (some (names.map String.ofList), text.dropWhile goesOn)
    else fail .badColumnList (text.takeWhile goesOn)
  | text => .ok (none, text)

/-- A relation behind its arrow; `whole` is the atom. -/
def readRelation (catalog : Catalog) (direction : Direction) (source : List Char)
    (columns : Option (List String)) (text whole : List Char) : Except Error Atom := do
  if columns.isSome then fail .relationWithColumns whole
  else
    let target := trim text
    if !isName target then fail .noRelatedTable target
    else
      checkTable catalog target
      return .relation direction (String.ofList source) (String.ofList target)

/-- An atom: a condition on a table, or a relation between two. -/
def readAtom (catalog : Catalog) (text : List Char) : Except Error Atom := do
  match stripKeyword "WHERE" text with
  | none => fail .noWhere text
  | some rest =>
    let (table, rest) := takeName rest
    if table.isEmpty then fail .noTableName text
    else
      checkTable catalog table
      let (columns, rest) ← readColumns rest
      match trim rest with
      | '-' :: '>' :: rest => readRelation catalog .forward table columns rest text
      | '<' :: '-' :: rest => readRelation catalog .backward table columns rest text
      | rest =>
        match unwrapGroup '(' rest with
        | none => fail .noLiteral text
        | some inner => return .condition (String.ofList table) columns (← readLiteral inner)

/-! ### Connectives

An expression hands pieces no longer than itself to its conjunctions and these to their operands;
only a negation or a group leads back to an expression, and both leave something behind. -/

theorem length_first_splitKeyword (keyword : String) (text : List Char) :
    (splitKeyword keyword text).1.length ≤ text.length :=
  length_le_of_mem_splitKeyword (List.mem_cons_self ..)

theorem length_other_splitKeyword {keyword : String} {text : List Char}
    (p : { p // p ∈ (splitKeyword keyword text).2 }) : p.1.length ≤ text.length :=
  length_le_of_mem_splitKeyword (List.mem_cons_of_mem _ p.2)

theorem length_strip_trim {keyword : String} {text rest : List Char}
    (h : stripKeyword keyword (trim text) = some rest) :
    rest.length + keyword.toList.length ≤ text.length :=
  Nat.le_trans (length_stripKeyword h) (length_trim_le text)

mutual

/-- An expression. -/
def readExpression (catalog : Catalog) (text : List Char) : Except Error Expression := do
  if (trim text).isEmpty then fail .emptyExpression []
  else
    match _h : stripKeyword "NOT" (trim text) with
    | some rest => return .not (← readExpression catalog rest)
    | none =>
      let first ← readConjunction catalog (splitKeyword "OR" (trim text)).1
      (splitKeyword "OR" (trim text)).2.attach.foldlM (fun e p => do
        return .or e (← readConjunction catalog p.1)) first
termination_by 3 * text.length + 2
decreasing_by
  · have h₁ := length_strip_trim _h
    have h₂ : "NOT".toList.length = 3 := rfl
    omega
  · have h₁ := length_first_splitKeyword "OR" (trim text)
    have h₂ := length_trim_le text
    omega
  · have h₁ := length_other_splitKeyword p
    have h₂ := length_trim_le text
    omega

/-- Operands joined by `AND`. -/
def readConjunction (catalog : Catalog) (text : List Char) : Except Error Expression := do
  let first ← readOperand catalog (splitKeyword "AND" text).1
  (splitKeyword "AND" text).2.attach.foldlM (fun e p => do
    return .and e (← readOperand catalog p.1)) first
termination_by 3 * text.length + 1
decreasing_by
  · have h₁ := length_first_splitKeyword "AND" text
    omega
  · have h₁ := length_other_splitKeyword p
    omega

/-- An operand: a negation, a group, or an atom. -/
def readOperand (catalog : Catalog) (text : List Char) : Except Error Expression := do
  if (trim text).isEmpty then fail .noOperand []
  else
    match _h : stripKeyword "NOT" (trim text) with
    | some rest => return .not (← readExpression catalog rest)
    | none =>
      match _g : unwrapGroup '(' (trim text) with
      | some inner => readExpression catalog inner
      | none => return .atom (← readAtom catalog (trim text))
termination_by 3 * text.length
decreasing_by
  · have h₁ := length_strip_trim _h
    have h₂ : "NOT".toList.length = 3 := rfl
    omega
  · have h₁ := length_unwrapGroup _g
    have h₂ := length_trim_le text
    omega

end

end Grammar

end TableQuery
