import TableQuery.Execution.Plan
import TableQuery.Proofs.Fetching.Requests
import TableQuery.Proofs.Grammar.Statements

/-!
# What reading leads to

Whatever text is read, the statements that come out are well formed
(`TableQuery.wellFormed_of_parse`): their tables are in the catalog and there is one to
take rows from, what stands for a name is a name, texts do not begin or end like
wildcards where they would be mistaken for them, and lists, projections and arguments
have the forms that the rest of the library counts on. Only the spelling of a table
stands between this and `TableQuery.Statement.Printable`, as one that is spelled like a
connective can be read but not written.

Each reader has a lemma of its own that says what it leads to when it succeeds. A
connective adds no atoms (`TableQuery.Grammar.forall_atoms_of_readPieces`), so for
expressions it is enough to follow the atoms down to where they are read, by induction
on the length of the text.
-/

namespace TableQuery

open Grammar Text

/-! ### Well-formed statements -/

/-- An atom on tables of the catalog whose columns, if it lists some, are one or more
names. -/
def Atom.WellFormed (catalog : Catalog) : Atom → Prop
  | condition table columns literal => catalog.hasTable table = true ∧
      (∀ names ∈ columns, names ≠ [] ∧ ∀ name ∈ names, IsName name) ∧ literal.Printable
  | relation _ source target => catalog.hasTable source = true ∧ catalog.hasTable target = true
  | never => False

/-- A statement that has a table to take its rows from, and whose parts have their
proper forms. -/
structure Statement.WellFormed (catalog : Catalog) (s : Statement) : Prop where
  name : ∀ name ∈ s.name, IsName name ∧ name ∉ reservedNames
  targetKey : ∀ key ∈ s.targetKey, IsName key ∧ s.name ≠ none
  atoms : ∀ a ∈ s.expression.atoms, a.WellFormed catalog
  target : ∃ table, s.targetTable = .ok table ∧ catalog.hasTable table = true
  projection : s.projection.Printable
  stages : ∀ stage ∈ s.stages, stage.Printable

namespace Grammar

/-! ### Names -/

theorem isName_takeName {text : List Char} (h : ¬(takeName text).1.isEmpty = true) :
    IsName (String.ofList (takeName text).1) := by
  rw [IsName, String.toList_ofList, isName_iff]
  refine ⟨fun hnil => h (by rw [hnil]; rfl), fun c hc => ?_⟩
  exact List.all_eq_true.mp List.all_takeWhile c hc

theorem isName_ofList {text : List Char} (h : isName text = true) :
    IsName (String.ofList text) := by
  rw [IsName, String.toList_ofList]
  exact h

/-! ### Literals -/

/-- What is left of a written text without its wildcards does not look like it had
others. -/
theorem writes_splitWildcards (written : List Char) :
    (splitWildcards written).1.Writes (splitWildcards written).2 := by
  rw [splitWildcards]
  split
  · trivial
  · rename_i hleading htrailing
    rcases written with _ | ⟨c, _ | ⟨d, rest⟩⟩
    · exact absurd hleading (by decide)
    · exact (Option.some_ne_none '*').symm
    · -- what is behind the first character ends as the whole text does
      have hlast : (d :: rest).getLast? ≠ some '*' := by simpa using htrailing
      exact hlast
  · rename_i hleading htrailing
    rcases written with _ | ⟨c, _ | ⟨d, rest⟩⟩
    · exact absurd htrailing (by decide)
    · exact absurd htrailing (by simp)
    · have hfirst : c ≠ '*' := by simpa using hleading
      refine ⟨List.cons_ne_nil _ _, fun h => hfirst ?_⟩
      exact Option.some.inj h
  · trivial

theorem printable_textLiteral (written : List Char) (caseSensitive : Bool) :
    (textLiteral written caseSensitive).Printable := by
  rw [textLiteral]
  dsimp only
  rw [Literal.Printable, String.toList_ofList]
  exact writes_splitWildcards written

theorem printable_listItem (text : List Char) : (listItem text).Printable := by
  unfold listItem
  split
  · exact ItemRole.noConfusion
  · exact ItemRole.noConfusion
  · rename_i htilde hdash
    intro _
    rw [String.toList_ofList]
    cases text with
    | nil => exact ⟨(Option.some_ne_none '~').symm, (Option.some_ne_none '-').symm⟩
    | cons c cs =>
      exact ⟨fun h => htilde cs (by rw [Option.some.inj h]), fun h => hdash cs
        (by rw [Option.some.inj h])⟩

theorem ne_nil_of_readItems {text : List Char} (hne : text ≠ []) {items : List (List Char)}
    {marked : Bool} (h : readItems text = .ok (items, marked)) : items ≠ [] := by
  unfold readItems at h
  split at h
  · exact absurd rfl hne
  · split at h
    · cases h
    · dsimp only at h
      split at h
      · cases h
      split at h
      · cases h
      · obtain ⟨rfl, -⟩ := Prod.mk.inj (Except.ok.inj h)
        exact List.cons_ne_nil _ _

theorem printable_of_readQuotedLiteral {text : List Char} (hne : text ≠ []) {l : Literal}
    (h : readQuotedLiteral text = .ok l) : l.Printable := by
  obtain ⟨⟨items, marked⟩, hitems, h⟩ := except_bind_eq_ok.mp h
  dsimp only at h
  split at h
  · obtain rfl := Except.ok.inj h
    exact printable_textLiteral _ _
  · rename_i hsingle
    split at h
    · cases h
    · obtain rfl := Except.ok.inj h
      refine ⟨?_, fun item hitem => ?_⟩
      · -- there are items, and not just one
        rw [List.length_map]
        rcases items with _ | ⟨item, _ | ⟨other, rest⟩⟩
        · exact absurd rfl (ne_nil_of_readItems hne hitems)
        · exact absurd rfl (hsingle item)
        · simp
      · obtain ⟨text, -, rfl⟩ := List.mem_map.mp hitem
        exact printable_listItem text

theorem isName_of_readKey {text whole rest : List Char} {key : Option String}
    (h : readKey text whole = .ok (key, rest)) : ∀ k ∈ key, IsName k := by
  unfold readKey at h
  split at h
  · dsimp only at h
    split at h
    · cases h
    · rename_i hne
      obtain ⟨rfl, rfl⟩ := Prod.mk.inj (Except.ok.inj h)
      rintro _ ⟨⟩
      exact isName_takeName hne
  · obtain ⟨rfl, rfl⟩ := Prod.mk.inj (Except.ok.inj h)
    exact fun _ h => absurd h (Option.not_mem_none _)

theorem printable_of_readVariable {text whole : List Char} {l : Literal}
    (h : readVariable text whole = .ok l) : l.Printable := by
  rw [readVariable] at h
  dsimp only at h
  split at h
  · cases h
  · rename_i hne
    obtain ⟨⟨key, rest⟩, hkey, h⟩ := except_bind_eq_ok.mp h
    obtain ⟨mode, -, h⟩ := except_bind_eq_ok.mp h
    obtain rfl := Except.ok.inj h
    exact ⟨isName_takeName hne, isName_of_readKey hkey⟩

/-- **A literal that is read has a proper form.** -/
theorem printable_of_readLiteral {inner : List Char} {l : Literal}
    (h : readLiteral inner = .ok l) : l.Printable := by
  rw [readLiteral] at h
  split at h
  · obtain rfl := Except.ok.inj h
    trivial
  split at h
  · obtain rfl := Except.ok.inj h
    trivial
  split at h
  · exact printable_of_readVariable h
  split at h
  · obtain ⟨lower, -, h⟩ := except_bind_eq_ok.mp h
    obtain ⟨upper, -, h⟩ := except_bind_eq_ok.mp h
    obtain rfl := Except.ok.inj h
    trivial
  split at h
  · cases h
  · rename_i hquoted
    exact printable_of_readQuotedLiteral (by rw [hquoted]; exact List.cons_ne_nil _ _) h
  · obtain rfl := Except.ok.inj h
    exact printable_textLiteral _ _

/-! ### Atoms -/

variable {catalog : Catalog}

theorem hasTable_of_checkTable {name : List Char} (h : checkTable catalog name = .ok ()) :
    catalog.hasTable (String.ofList name) = true := by
  rw [checkTable] at h
  split at h
  · assumption
  · cases h

theorem isName_of_readColumns {text rest : List Char} {columns : Option (List String)}
    (h : readColumns text = .ok (columns, rest)) :
    ∀ names ∈ columns, names ≠ [] ∧ ∀ name ∈ names, IsName name := by
  unfold readColumns at h
  split at h
  · dsimp only at h
    split at h
    · rename_i hall
      obtain ⟨rfl, -⟩ := Prod.mk.inj (Except.ok.inj h)
      rintro _ ⟨⟩
      refine ⟨by simp [Pieces.toList], fun name hname => ?_⟩
      obtain ⟨piece, hpiece, rfl⟩ := List.mem_map.mp hname
      exact isName_ofList (List.all_eq_true.mp hall piece hpiece)
    · cases h
  · obtain ⟨rfl, -⟩ := Prod.mk.inj (Except.ok.inj h)
    exact fun _ h => absurd h (Option.not_mem_none _)

theorem wellFormed_of_readRelation {direction : Direction} {source text whole : List Char}
    {columns : Option (List String)} (hsource : catalog.hasTable (String.ofList source) = true)
    {a : Atom} (h : readRelation catalog direction source columns text whole = .ok a) :
    a.WellFormed catalog := by
  rw [readRelation] at h
  split at h
  · cases h
  dsimp only at h
  split at h
  · cases h
  obtain ⟨_, htarget, h⟩ := except_bind_eq_ok.mp h
  obtain rfl := Except.ok.inj h
  exact ⟨hsource, hasTable_of_checkTable htarget⟩

/-- **An atom that is read is well formed.** -/
theorem wellFormed_of_readAtom {text : List Char} {a : Atom} (h : readAtom catalog text = .ok a) :
    a.WellFormed catalog := by
  rw [readAtom] at h
  split at h
  · cases h
  dsimp only at h
  split at h
  · cases h
  obtain ⟨_, htable, h⟩ := except_bind_eq_ok.mp h
  have htable := hasTable_of_checkTable htable
  obtain ⟨⟨columns, rest⟩, hcolumns, h⟩ := except_bind_eq_ok.mp h
  dsimp only at h
  split at h
  · exact wellFormed_of_readRelation htable h
  · exact wellFormed_of_readRelation htable h
  · split at h
    · cases h
    · obtain ⟨literal, hliteral, h⟩ := except_bind_eq_ok.mp h
      obtain rfl := Except.ok.inj h
      exact ⟨htable, isName_of_readColumns hcolumns, printable_of_readLiteral hliteral⟩

/-! ### Expressions -/

section Expressions

variable {P : Atom → Prop}

theorem forall_atoms_of_foldlM {read : List Char → Except Error Expression}
    {join : Expression → Expression → Expression}
    (hjoin : ∀ l r, (join l r).atoms = l.atoms ++ r.atoms) {pieces : List (List Char)}
    (hread : ∀ t ∈ pieces, ∀ e, read t = .ok e → ∀ a ∈ e.atoms, P a) {first e : Expression}
    (hfirst : ∀ a ∈ first.atoms, P a)
    (h : pieces.foldlM (fun e t => do return join e (← read t)) first = .ok e) :
    ∀ a ∈ e.atoms, P a := by
  refine invariant_of_foldlM (P := fun e => ∀ a ∈ e.atoms, P a)
    (fun t ht e _ he hjoined => ?_) hfirst h
  obtain ⟨operand, hoperand, hjoined⟩ := except_bind_eq_ok.mp hjoined
  obtain rfl := Except.ok.inj hjoined
  intro a ha
  rw [hjoin] at ha
  rcases List.mem_append.mp ha with ha | ha
  · exact he a ha
  · exact hread t ht operand hoperand a ha

/-- The atoms of a chain are those of its pieces. -/
theorem forall_atoms_of_readPieces {read : List Char → Except Error Expression}
    {join : Expression → Expression → Expression}
    (hjoin : ∀ l r, (join l r).atoms = l.atoms ++ r.atoms) {p : Pieces}
    (hread : ∀ t ∈ p.toList, ∀ e, read t = .ok e → ∀ a ∈ e.atoms, P a) {e : Expression}
    (h : readPieces read join p = .ok e) : ∀ a ∈ e.atoms, P a := by
  obtain ⟨first, hfirst, h⟩ := except_bind_eq_ok.mp h
  exact forall_atoms_of_foldlM hjoin (fun t ht => hread t (List.mem_cons_of_mem _ ht))
    (hread p.1 (List.mem_cons_self ..) first hfirst) h

end Expressions

/-- What a negation applies to is shorter than the negation. -/
theorem length_lt_of_stripKeyword_not {text rest : List Char}
    (h : stripKeyword "NOT" (trim text) = some rest) : rest.length < text.length := by
  have hword : "NOT".toList.length = 3 := rfl
  have hrest := length_strip_trim h
  omega

/-- Whatever is read as an expression from texts shorter than this has well-formed
atoms. -/
def ReadsWellFormed (catalog : Catalog) (length : Nat) : Prop :=
  ∀ text : List Char, text.length < length → ∀ e, readExpression catalog text = .ok e →
    ∀ a ∈ e.atoms, a.WellFormed catalog

namespace ReadsWellFormed

variable {length : Nat} {text : List Char} {e : Expression}

theorem operand (hshorter : ReadsWellFormed catalog length) (hlength : text.length ≤ length)
    (h : readOperand catalog text = .ok e) : ∀ a ∈ e.atoms, a.WellFormed catalog := by
  rw [readOperand] at h
  split at h
  · cases h
  split at h
  · rename_i rest hnot
    obtain ⟨inner, hinner, h⟩ := except_bind_eq_ok.mp h
    obtain rfl := Except.ok.inj h
    have hrest := length_lt_of_stripKeyword_not hnot
    exact hshorter rest (Nat.lt_of_lt_of_le hrest hlength) inner hinner
  split at h
  · rename_i inner hgroup
    have hinner := length_unwrapGroup hgroup
    have htrim := length_trim_le text
    exact hshorter inner (by omega) e h
  · obtain ⟨a, ha, h⟩ := except_bind_eq_ok.mp h
    obtain rfl := Except.ok.inj h
    intro b hb
    obtain rfl := List.mem_singleton.mp hb
    exact wellFormed_of_readAtom ha

theorem conjunction (hshorter : ReadsWellFormed catalog length) (hlength : text.length ≤ length)
    (h : readConjunction catalog text = .ok e) : ∀ a ∈ e.atoms, a.WellFormed catalog := by
  rw [readConjunction_eq] at h
  refine forall_atoms_of_readPieces (fun _ _ => rfl) (fun t ht e => ?_) h
  exact hshorter.operand (Nat.le_trans (length_le_of_mem_splitKeyword ht) hlength)

theorem disjunction (hshorter : ReadsWellFormed catalog length) (hlength : text.length ≤ length)
    (h : readDisjunction catalog text = .ok e) : ∀ a ∈ e.atoms, a.WellFormed catalog := by
  refine forall_atoms_of_readPieces (fun _ _ => rfl) (fun t ht e => ?_) h
  exact hshorter.conjunction (Nat.le_trans (length_le_of_mem_splitKeyword ht) hlength)

end ReadsWellFormed

/-- **The atoms of an expression that is read are well formed**, by induction on the
length of its text. -/
theorem readsWellFormed (length : Nat) : ReadsWellFormed catalog length := by
  induction length with
  | zero => exact fun _ hlength => absurd hlength (Nat.not_lt_zero _)
  | succ length hshorter =>
    intro text hlength e h
    have hlength : text.length ≤ length := Nat.lt_succ_iff.mp hlength
    by_cases hne : trim text = []
    · rw [readExpression, hne] at h
      cases h
    cases hnot : stripKeyword "NOT" (trim text) with
    | some rest =>
      rw [readExpression_not hne hnot] at h
      obtain ⟨inner, hinner, h⟩ := except_bind_eq_ok.mp h
      obtain rfl := Except.ok.inj h
      have hrest := length_lt_of_stripKeyword_not hnot
      exact hshorter rest (Nat.lt_of_lt_of_le hrest hlength) inner hinner
    | none =>
      rw [readExpression_eq hne hnot] at h
      exact hshorter.disjunction (Nat.le_trans (length_trim_le text) hlength) h

end Grammar

/-- An expression of well-formed atoms has a table to take rows from. -/
theorem Expression.exists_firstTable? {catalog : Catalog} {e : Expression}
    (h : ∀ a ∈ e.atoms, a.WellFormed catalog) :
    ∃ table, e.firstTable? = some table ∧ catalog.hasTable table = true := by
  have hne : e.atoms ≠ [] := by
    induction e with
    | and l r ihl _ | or l r ihl _ =>
      exact List.append_ne_nil_of_left_ne_nil
        (ihl fun a ha => h a (List.mem_append_left _ ha)) _
    | not e ih => exact ih h
    | atom a => exact List.cons_ne_nil _ _
  rw [firstTable?]
  cases hatoms : e.atoms with
  | nil => exact absurd hatoms hne
  | cons a rest =>
    have ha : a.WellFormed catalog := h a (by rw [hatoms]; exact List.mem_cons_self ..)
    cases a with
    | condition table => exact ⟨table, rfl, ha.1⟩
    | relation _ source => exact ⟨source, rfl, ha.1⟩
    | never => exact ha.elim

namespace Grammar

variable {catalog : Catalog}

/-! ### Projections -/

theorem printable_of_readProjection {text : List Char} {p : Projection}
    (h : readProjection text = .ok p) : p.Printable := by
  rw [readProjection] at h
  split at h
  · obtain rfl := Except.ok.inj h
    trivial
  dsimp only at h
  split at h
  · rename_i hall
    have hnames : ∀ column ∈ (splitOn ',' (trim text)).toList.map trim,
        IsName (String.ofList column) := fun column hcolumn =>
      isName_ofList (List.all_eq_true.mp hall column hcolumn)
    split at h
    · rename_i column hcolumns
      obtain rfl := Except.ok.inj h
      rw [hcolumns] at hnames
      exact hnames column (List.mem_singleton_self _)
    · rename_i hsingle
      obtain rfl := Except.ok.inj h
      refine ⟨?_, fun name hname => ?_⟩
      · -- cutting leaves one piece or more, and here it is not one
        generalize splitOn ',' (trim text) = pieces at hsingle
        obtain ⟨piece, _ | ⟨other, rest⟩⟩ := pieces
        · exact absurd rfl (hsingle (trim piece))
        · simp [Pieces.toList]
      · obtain ⟨column, hcolumn, rfl⟩ := List.mem_map.mp hname
        exact hnames column hcolumn
  · cases h

/-! ### Stages -/

theorem isArgument_of_readArgumentValue {text : List Char} {value : Json}
    (h : readArgumentValue text = .ok value) : value.IsArgument := by
  unfold readArgumentValue at h
  split at h
  · cases h
  · obtain ⟨⟨content, rest⟩, -, h⟩ := except_bind_eq_ok.mp h
    dsimp only at h
    split at h
    · obtain rfl := Except.ok.inj h
      trivial
    · cases h
  split at h
  · obtain rfl := Except.ok.inj h
    trivial
  split at h
  · obtain rfl := Except.ok.inj h
    trivial
  split at h
  · rename_i n hn
    obtain rfl := Except.ok.inj h
    have hrange := (Option.filter_eq_some_iff.mp hn).2
    simpa [Json.IsArgument] using hrange
  split at h
  · obtain rfl := Except.ok.inj h
    trivial
  · obtain rfl := Except.ok.inj h
    trivial

theorem printable_of_readArgument {text : List Char} {a : Argument}
    (h : readArgument text = .ok a) : a.Printable := by
  rw [readArgument] at h
  split at h
  · cases h
  dsimp only at h
  split at h
  · rename_i hname _
    obtain ⟨value, hvalue, h⟩ := except_bind_eq_ok.mp h
    obtain rfl := Except.ok.inj h
    refine ⟨?_, isArgument_of_readArgumentValue hvalue⟩
    rintro _ ⟨⟩
    exact isName_takeName (by rw [hname]; simp)
  · obtain ⟨value, hvalue, h⟩ := except_bind_eq_ok.mp h
    obtain rfl := Except.ok.inj h
    exact ⟨fun _ h => absurd h (Option.not_mem_none _), isArgument_of_readArgumentValue hvalue⟩

/-- The name of a stage has passed the check, and its arguments are read one by one. -/
theorem printable_of_stageName {text : List Char} {arguments : List Argument}
    (hname : ¬(((text.takeWhile isStageNameChar).isEmpty ||
      (text.takeWhile isStageNameChar).head? == some '.' ||
      (text.takeWhile isStageNameChar).getLast? == some '.') = true))
    (harguments : ∀ a ∈ arguments, a.Printable) :
    StageCall.Printable ⟨String.ofList (text.takeWhile isStageNameChar), arguments⟩ := by
  simp only [Bool.or_eq_true, List.isEmpty_iff, beq_iff_eq, not_or] at hname
  obtain ⟨⟨hne, hhead⟩, hlast⟩ := hname
  constructor
  · rwa [String.toList_ofList]
  · rw [String.toList_ofList]
    exact fun c hc => List.all_eq_true.mp List.all_takeWhile c hc
  · rwa [String.toList_ofList]
  · rwa [String.toList_ofList]
  · exact harguments

/-- **A stage that is read has a proper name and proper arguments.** -/
theorem printable_of_readStage {text : List Char} {stage : StageCall}
    (h : readStage text = .ok stage) : stage.Printable := by
  rw [readStage] at h
  split at h
  · dsimp only at h
    split at h
    · cases h
    rename_i hname
    split at h
    · obtain rfl := Except.ok.inj h
      exact printable_of_stageName hname fun a ha => absurd ha List.not_mem_nil
    split at h
    · cases h
    split at h
    · obtain rfl := Except.ok.inj h
      exact printable_of_stageName hname fun a ha => absurd ha List.not_mem_nil
    · obtain ⟨arguments, harguments, h⟩ := except_bind_eq_ok.mp h
      obtain rfl := Except.ok.inj h
      refine printable_of_stageName hname fun a ha => ?_
      obtain ⟨piece, -, hpiece⟩ := exists_of_mapM_eq_ok harguments a ha
      exact printable_of_readArgument hpiece
  · cases h

/-! ### Parts and segments -/

theorem isName_of_readBindingKey {text segment rest : List Char} {key : Option String}
    (h : readBindingKey text segment = .ok (key, rest)) : ∀ k ∈ key, IsName k := by
  unfold readBindingKey at h
  split at h
  · dsimp only at h
    split at h
    · cases h
    · rename_i hne
      obtain ⟨rfl, -⟩ := Prod.mk.inj (Except.ok.inj h)
      rintro _ ⟨⟩
      exact isName_takeName hne
  · obtain ⟨rfl, -⟩ := Prod.mk.inj (Except.ok.inj h)
    exact fun _ h => absurd h (Option.not_mem_none _)

theorem isName_of_readBinding {segment body : List Char} {binding : Option Binding}
    (h : readBinding segment = .ok (binding, body)) :
    ∀ b ∈ binding, (IsName b.name ∧ b.name ∉ reservedNames) ∧ ∀ key ∈ b.key, IsName key := by
  unfold readBinding at h
  split at h
  · dsimp only at h
    split at h
    · cases h
    rename_i hne
    split at h
    · cases h
    rename_i hreserved
    obtain ⟨⟨key, rest⟩, hkey, h⟩ := except_bind_eq_ok.mp h
    dsimp only at h
    split at h
    · obtain ⟨rfl, -⟩ := Prod.mk.inj (Except.ok.inj h)
      rintro _ ⟨⟩
      exact ⟨⟨isName_takeName hne, fun hmem => hreserved (List.contains_iff_mem.mpr hmem)⟩,
        isName_of_readBindingKey hkey⟩
    · cases h
  · obtain ⟨rfl, -⟩ := Prod.mk.inj (Except.ok.inj h)
    exact fun _ h => absurd h (Option.not_mem_none _)

theorem printable_of_readInnerProjection {inner rest : List Char} {p : Option Projection}
    (h : readInnerProjection inner = .ok (p, rest)) : ∀ projection ∈ p, projection.Printable := by
  rw [readInnerProjection] at h
  split at h
  · dsimp only at h
    obtain ⟨projection, hprojection, h⟩ := except_bind_eq_ok.mp h
    obtain ⟨rfl, -⟩ := Prod.mk.inj (Except.ok.inj h)
    rintro _ ⟨⟩
    exact printable_of_readProjection hprojection
  · obtain ⟨rfl, -⟩ := Prod.mk.inj (Except.ok.inj h)
    exact fun _ h => absurd h (Option.not_mem_none _)

theorem printable_of_readOuterProjection {inside : Option Projection}
    (hinside : ∀ projection ∈ inside, projection.Printable) {trailing part : List Char}
    {p : Option Projection} (h : readOuterProjection inside trailing part = .ok p) :
    ∀ projection ∈ p, projection.Printable := by
  rw [readOuterProjection] at h
  split at h
  · obtain rfl := Except.ok.inj h
    exact hinside
  split at h
  · cases h
  split at h
  · cases h
  · rename_i columns _ _
    cases hprojection : readProjection columns with
    | error e =>
      rw [hprojection] at h
      cases h
    | ok projection =>
      rw [hprojection] at h
      obtain rfl := Except.ok.inj h
      rintro _ ⟨⟩
      exact printable_of_readProjection hprojection

/-- A part is well formed and has neither a name nor stages. -/
theorem wellFormed_of_readPart {outer : Option Aggregation} {part : List Char} {s : Statement}
    (h : readPart catalog outer part = .ok s) : s.WellFormed catalog := by
  rw [readPart] at h
  split at h
  · cases h
  obtain ⟨⟨aggregation, inner⟩, -, h⟩ := except_bind_eq_ok.mp h
  obtain ⟨⟨inside, inner⟩, hinside, h⟩ := except_bind_eq_ok.mp h
  obtain ⟨projection, hprojection, h⟩ := except_bind_eq_ok.mp h
  obtain ⟨expression, hexpression, h⟩ := except_bind_eq_ok.mp h
  obtain rfl := Except.ok.inj h
  have hatoms := readsWellFormed _ inner (Nat.lt_succ_self _) expression hexpression
  have hproper := printable_of_readOuterProjection (printable_of_readInnerProjection hinside)
    hprojection
  obtain ⟨table, htable, hcatalog⟩ := Expression.exists_firstTable? hatoms
  exact {
    name := fun _ h => absurd h (Option.not_mem_none _)
    targetKey := fun _ h => absurd h (Option.not_mem_none _)
    atoms := hatoms
    target := ⟨table, by rw [Statement.targetTable, htable], hcatalog⟩
    projection := by
      cases projection with
      | none => trivial
      | some projection => exact hproper projection rfl
    stages := fun _ h => absurd h List.not_mem_nil }

theorem mem_mapLast {f : Statement → Statement} {statements : List Statement} {s : Statement}
    (h : s ∈ mapLast f statements) : s ∈ statements ∨ ∃ last ∈ statements, s = f last := by
  induction statements with
  | nil => cases h
  | cons first rest ih =>
    cases rest with
    | nil => exact Or.inr ⟨first, List.mem_cons_self .., List.mem_singleton.mp h⟩
    | cons second rest =>
      rw [mapLast] at h
      rcases List.mem_cons.mp h with rfl | h
      · exact Or.inl (List.mem_cons_self ..)
      · rcases ih h with hmem | ⟨last, hlast, heq⟩
        · exact Or.inl (List.mem_cons_of_mem _ hmem)
        · exact Or.inr ⟨last, List.mem_cons_of_mem _ hlast, heq⟩
      · exact List.cons_ne_nil _ _

/-- **The statements of a segment are well formed**: its parts are, and so is the last of
them with the name and the stages of the segment. -/
theorem wellFormed_of_readSegment {segment : List Char} {statements : List Statement}
    (h : readSegment catalog segment = .ok statements) : ∀ s ∈ statements, s.WellFormed catalog := by
  rw [readSegment] at h
  obtain ⟨⟨binding, body⟩, hbinding, h⟩ := except_bind_eq_ok.mp h
  obtain ⟨stages, hstages, h⟩ := except_bind_eq_ok.mp h
  dsimp only at h
  split at h
  · cases h
  obtain ⟨outer, -, h⟩ := except_bind_eq_ok.mp h
  obtain ⟨first, hfirst, h⟩ := except_bind_eq_ok.mp h
  obtain ⟨rest, hrest, h⟩ := except_bind_eq_ok.mp h
  obtain rfl := Except.ok.inj h
  have hparts : ∀ s ∈ first :: rest, s.WellFormed catalog := by
    intro s hs
    rcases List.mem_cons.mp hs with rfl | hs
    · exact wellFormed_of_readPart hfirst
    · obtain ⟨part, -, hpart⟩ := exists_of_mapM_eq_ok hrest s hs
      exact wellFormed_of_readPart hpart
  intro s hs
  rcases mem_mapLast hs with hs | ⟨last, hlast, rfl⟩
  · exact hparts s hs
  · have hbound := isName_of_readBinding hbinding
    have hpart := hparts last hlast
    exact {
      name := fun name hname => by
        obtain ⟨b, hb, rfl⟩ := Option.map_eq_some_iff.mp hname
        exact (hbound b hb).1
      targetKey := fun key hkey => by
        obtain ⟨b, hb, hkey⟩ := Option.bind_eq_some_iff.mp hkey
        exact ⟨(hbound b hb).2 key hkey, by simp [hb]⟩
      atoms := hpart.atoms
      target := hpart.target
      projection := hpart.projection
      stages := fun stage hstage => by
        obtain ⟨piece, -, hpiece⟩ := exists_of_mapM_eq_ok hstages stage hstage
        exact printable_of_readStage hpiece }

end Grammar

/-- **What is read is well formed**, whatever the catalog and the text are. -/
theorem wellFormed_of_parse (catalog : Catalog) (text : String) (statements : List Statement)
    (h : parse catalog text = .ok statements) : ∀ s ∈ statements, s.WellFormed catalog := by
  rw [parse, readStatements] at h
  split at h
  · cases h
  obtain ⟨segments, hsegments, h⟩ := except_bind_eq_ok.mp h
  obtain rfl := Except.ok.inj h
  intro s hs
  obtain ⟨segment, hsegment, hs⟩ := List.mem_flatten.mp hs
  obtain ⟨piece, -, hpiece⟩ := exists_of_mapM_eq_ok hsegments segment hsegment
  exact wellFormed_of_readSegment hpiece s hs

/-- A prefix, a negated relation and two columns; then a list for a name, behind a bar. -/
def sampleText : String :=
  "[Where users:name (\"A*\") AND NOT (Where users <- posts)] AS id, name; " ++
    "$titles = [Where posts:title (\"~lean\" \"-draft\")] | @core.limit(n = 3)"

theorem wellFormed_of_parse_sample :
    ∃ first second, parse .blog sampleText = .ok [first, second] ∧
      first.projection = .columns ["id", "name"] ∧ second.name = some "titles" ∧
      first.WellFormed .blog ∧ second.WellFormed .blog := by
  let first : Statement := {
    expression := .and
      (.atom (.condition "users" (some ["name"]) (.text "A" false .startsWith)))
      (.not (.atom (.relation .backward "users" "posts")))
    projection := .columns ["id", "name"] }
  let second : Statement := {
    name := some "titles"
    expression := .atom (.condition "posts" (some ["title"])
      (.list [⟨.alternative, "lean"⟩, ⟨.excluded, "draft"⟩]))
    stages := [{ name := "core.limit", arguments := [⟨some "n", .num (.int 3)⟩] }] }
  have hparse : parse .blog sampleText = .ok [first, second] := by decide +kernel
  have hwell := wellFormed_of_parse .blog sampleText [first, second] hparse
  exact ⟨first, second, hparse, rfl, rfl, hwell first (List.mem_cons_self ..),
    hwell second (List.mem_cons_of_mem _ (List.mem_singleton_self _))⟩

end TableQuery
