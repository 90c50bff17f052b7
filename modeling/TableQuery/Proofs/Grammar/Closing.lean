import TableQuery.Proofs.Grammar.Pieces
import TableQuery.Proofs.Grammar.Variants.Statements

/-!
# Nothing is found open

Reading a part looks for the bracket that closes it, and reading a string looks for the
closing quote. Both have a fault for the case that there is none. Since a text is read
only if it is balanced, and its pieces are balanced with it, neither fault ever comes up
(`TableQuery.Grammar.nothingOpen_readStatements`).

Every reader is followed down to the texts it hands on. A reader of text that holds no
string needs no assumption; for the others the text is balanced, and what they hand on is
a piece of it or what is left of it behind characters that open and close nothing.
-/

namespace TableQuery

/-- The fault of a group or of a literal without an end. -/
def GrammarFault.isOpen : GrammarFault → Bool
  | unclosedBracket | unterminatedString => true
  | _ => false

namespace Grammar

open Text

/-- No group and no literal was found open. -/
def NothingOpen {α : Type} (r : Except Error α) : Prop :=
  ∀ fault fragment, r = .error (.malformed fault fragment) → fault.isOpen = false

namespace NothingOpen

variable {α β : Type}

theorem ok (a : α) : NothingOpen (.ok a : Except Error α) :=
  fun _ _ h => by cases h

theorem fail {fault : GrammarFault} (h : fault.isOpen = false) (fragment : List Char) :
    NothingOpen (fail fault fragment : Except Error α) := by
  intro fault' fragment' heq
  cases heq
  exact h

theorem unknownTable (name : String) :
    NothingOpen (.error (.unknownTable name) : Except Error α) :=
  fun _ _ h => by cases h

theorem bind {r : Except Error α} {f : α → Except Error β} (h : NothingOpen r)
    (hf : ∀ a, r = .ok a → NothingOpen (f a)) : NothingOpen (r >>= f) := by
  cases r with
  | ok a => exact hf a rfl
  | error e =>
    rintro fault fragment heq
    cases heq
    exact h fault fragment rfl

theorem map {r : Except Error α} (h : NothingOpen r) (f : α → β) :
    NothingOpen (do return f (← r)) :=
  h.bind fun _ _ => ok _

theorem mapM {γ : Type} {xs : List γ} {f : γ → Except Error α}
    (h : ∀ x ∈ xs, NothingOpen (f x)) : NothingOpen (xs.mapM f) := by
  induction xs with
  | nil => exact ok _
  | cons x xs ih =>
    obtain ⟨hx, hxs⟩ := List.forall_mem_cons.mp h
    rw [List.mapM_cons]
    exact hx.bind fun _ _ => (ih hxs).bind fun _ _ => ok _

theorem foldlM {γ : Type} {xs : List γ} {f : α → γ → Except Error α}
    (h : ∀ a, ∀ x ∈ xs, NothingOpen (f a x)) : ∀ a, NothingOpen (xs.foldlM f a) := by
  induction xs with
  | nil => exact fun a => ok a
  | cons x xs ih =>
    intro a
    rw [List.foldlM_cons]
    exact (h a x (List.mem_cons_self ..)).bind fun b _ =>
      ih (fun c y hy => h c y (List.mem_cons_of_mem _ hy)) b

end NothingOpen

/-! ### Literals -/

theorem nothingOpen_readMode (text whole : List Char) : NothingOpen (readMode text whole) := by
  unfold readMode
  split
  · exact .ok _
  · dsimp only
    split_ifs
    · exact .ok _
    · exact .ok _
    · exact .ok _
    · exact .fail rfl _
  · exact .fail rfl _

theorem nothingOpen_readKey (text whole : List Char) : NothingOpen (readKey text whole) := by
  unfold readKey
  split
  · dsimp only
    split_ifs
    · exact .fail rfl _
    · exact .ok _
  · exact .ok _

theorem nothingOpen_readVariable (text whole : List Char) :
    NothingOpen (readVariable text whole) := by
  unfold readVariable
  dsimp only
  split_ifs
  · exact .fail rfl _
  · exact (nothingOpen_readKey _ _).bind fun _ _ =>
      (nothingOpen_readMode _ _).bind fun _ _ => .ok _

/-- A balanced text that begins with a literal, and what is done with the literal and the balanced
text behind it. -/
theorem nothingOpen_readQuoted_bind {α : Type} {text : List Char}
    {f : List Char × List Char → Except Error α} (h : Balanced ('"' :: text))
    (hf : ∀ content rest, readQuoted ('"' :: text) = .ok (content, rest) → Balanced rest →
      NothingOpen (f (content, rest))) : NothingOpen (readQuoted ('"' :: text) >>= f) := by
  obtain ⟨content, rest, hread, hrest⟩ := h.exists_readQuoted
  rw [hread, ok_bind]
  exact hf content rest hread hrest

theorem nothingOpen_readBound {text : List Char} (h : Balanced text) :
    NothingOpen (readBound text) := by
  have htrim := h.trim
  unfold readBound
  dsimp only
  split
  · exact .ok _
  · rename_i rest heq
    rw [heq] at htrim ⊢
    refine nothingOpen_readQuoted_bind htrim fun _ _ _ _ => ?_
    dsimp only
    split_ifs
    · exact .ok _
    · exact .fail rfl _
  · exact .ok _

theorem Balanced.stripCaseMark {text : List Char} (h : Balanced text) :
    Balanced (stripCaseMark text).2 := by
  unfold Grammar.stripCaseMark
  split
  · exact (h.tail rfl).tail rfl
  · exact (h.tail rfl).tail rfl
  · exact h

/-- By induction on how many characters are left of the items. -/
theorem nothingOpen_readItems_of_length (length : Nat) : ∀ {text : List Char},
    text.length ≤ length → Balanced text → NothingOpen (readItems text) := by
  induction length with
  | zero =>
    intro text hlength _
    obtain rfl := List.length_eq_zero_iff.mp (Nat.le_zero.mp hlength)
    rw [readItems]
    exact .ok _
  | succ length ih =>
    intro text hlength h
    by_cases hne : text = []
    · subst hne
      rw [readItems]
      exact .ok _
    rw [readItems_of_ne_nil hne]
    obtain ⟨c, cs, rfl⟩ := List.exists_cons_of_ne_nil hne
    by_cases hquote : c = '"'
    · subst hquote
      refine nothingOpen_readQuoted_bind h fun content rest hread hrest => ?_
      dsimp only
      split_ifs
      · exact .fail rfl _
      · have hshorter : (trimStart (stripCaseMark rest).2).length ≤ length := by
          have h₁ := length_readQuoted hread
          have h₂ := length_stripCaseMark rest
          have h₃ := length_trimStart_le (stripCaseMark rest).2
          dsimp only at h₁
          omega
        exact (ih hshorter hrest.stripCaseMark.trimStart).bind fun _ _ => .ok _
    · have hread : readQuoted (c :: cs) = fail .noString (c :: cs) := by
        unfold readQuoted
        split
        · rename_i heq
          exact absurd (List.cons.inj heq).1 hquote
        · rfl
      rw [hread]
      exact (NothingOpen.fail rfl _).bind fun _ h => by cases h

theorem nothingOpen_readQuotedLiteral {text : List Char} (h : Balanced text) :
    NothingOpen (readQuotedLiteral text) := by
  unfold readQuotedLiteral
  refine (nothingOpen_readItems_of_length text.length (Nat.le_refl _) h).bind fun r _ => ?_
  dsimp only
  split
  · exact .ok _
  · split_ifs
    · exact .fail rfl _
    · exact .ok _

theorem nothingOpen_readLiteral {inner : List Char} (h : Balanced inner) :
    NothingOpen (readLiteral inner) := by
  have htrim := h.trim
  unfold readLiteral
  dsimp only
  split_ifs
  · exact .ok _
  · exact .ok _
  split
  · exact nothingOpen_readVariable _ _
  split
  · rename_i hrange
    obtain ⟨hlower, hupper⟩ := htrim.splitRange hrange
    exact (nothingOpen_readBound hlower).bind fun _ _ =>
      (nothingOpen_readBound hupper).bind fun _ _ => .ok _
  split
  · exact .fail rfl _
  · exact nothingOpen_readQuotedLiteral htrim
  · exact .ok _

/-! ### Expressions -/

variable {catalog : Catalog}

theorem nothingOpen_checkTable (name : List Char) : NothingOpen (checkTable catalog name) := by
  unfold checkTable
  split_ifs
  · exact .ok _
  · exact .unknownTable _

theorem nothingOpen_readColumns (text : List Char) : NothingOpen (readColumns text) := by
  unfold readColumns
  split
  · dsimp only
    split_ifs
    · exact .ok _
    · exact .fail rfl _
  · exact .ok _

theorem nothingOpen_readRelation (direction : Direction) (source : List Char)
    (columns : Option (List String)) (text whole : List Char) :
    NothingOpen (readRelation catalog direction source columns text whole) := by
  unfold readRelation
  dsimp only
  split_ifs
  · exact .fail rfl _
  · exact .fail rfl _
  · exact (nothingOpen_checkTable _).bind fun _ _ => .ok _

theorem nothingOpen_readAtom {text : List Char} (h : Balanced text) :
    NothingOpen (readAtom catalog text) := by
  rw [readAtom]
  split
  · exact .fail rfl _
  rename_i rest hwhere
  have hrest := (h.stripKeyword (by decide) hwhere).takeName
  dsimp only
  split_ifs
  · exact .fail rfl _
  refine (nothingOpen_checkTable _).bind fun _ _ => ?_
  refine (nothingOpen_readColumns _).bind fun r hcolumns => ?_
  obtain ⟨front, htext, hfront⟩ := exists_of_readColumns hcolumns
  rw [htext] at hrest
  have hbehind := (hrest.drop_plain hfront).trim
  split
  · exact nothingOpen_readRelation _ _ _ _ _
  · exact nothingOpen_readRelation _ _ _ _ _
  split
  · exact .fail rfl _
  · rename_i hgroup
    exact (nothingOpen_readLiteral (.unwrapGroup (.inl rfl) hgroup)).bind fun _ _ => .ok _

theorem nothingOpen_readPieces {read : List Char → Except Error Expression}
    {join : Expression → Expression → Expression} {p : Pieces}
    (h : ∀ t ∈ p.toList, NothingOpen (read t)) : NothingOpen (readPieces read join p) := by
  obtain ⟨hfirst, hothers⟩ := List.forall_mem_cons.mp h
  exact hfirst.bind fun _ _ => .foldlM (fun _ t ht => (hothers t ht).bind fun _ _ => .ok _) _

/-- Balanced texts shorter than this are read without anything being found open. -/
def ReadsClosed (catalog : Catalog) (length : Nat) : Prop :=
  ∀ text : List Char, text.length < length → Balanced text →
    NothingOpen (readExpression catalog text)

namespace ReadsClosed

variable {length : Nat} {text : List Char}

theorem operand (hshorter : ReadsClosed catalog length) (hlength : text.length ≤ length)
    (h : Balanced text) : NothingOpen (readOperand catalog text) := by
  have htrim := h.trim
  rw [readOperand]
  split_ifs
  · exact .fail rfl _
  split
  · rename_i rest hnot
    have hrest := Nat.lt_of_lt_of_le (length_lt_of_stripKeyword_not hnot) hlength
    exact (hshorter rest hrest (htrim.stripKeyword (by decide) hnot)).bind fun _ _ => .ok _
  split
  · rename_i inner hgroup
    have hinner := Nat.lt_of_lt_of_le (length_unwrapGroup hgroup) (length_trim_le text)
    exact hshorter inner (Nat.lt_of_lt_of_le hinner hlength) (.unwrapGroup (.inl rfl) hgroup)
  · exact (nothingOpen_readAtom htrim).bind fun _ _ => .ok _

theorem conjunction (hshorter : ReadsClosed catalog length) (hlength : text.length ≤ length)
    (h : Balanced text) : NothingOpen (readConjunction catalog text) := by
  rw [readConjunction_eq]
  refine nothingOpen_readPieces fun p hp => hshorter.operand ?_ (h.splitKeyword _ (by decide) p hp)
  exact Nat.le_trans (length_le_of_mem_splitKeyword hp) hlength

theorem disjunction (hshorter : ReadsClosed catalog length) (hlength : text.length ≤ length)
    (h : Balanced text) : NothingOpen (readDisjunction catalog text) := by
  refine nothingOpen_readPieces fun p hp =>
    hshorter.conjunction ?_ (h.splitKeyword _ (by decide) p hp)
  exact Nat.le_trans (length_le_of_mem_splitKeyword hp) hlength

end ReadsClosed

theorem readsClosed (length : Nat) : ReadsClosed catalog length := by
  induction length with
  | zero => exact fun _ hlength => absurd hlength (Nat.not_lt_zero _)
  | succ length hshorter =>
    intro text hlength h
    have hlength : text.length ≤ length := Nat.lt_succ_iff.mp hlength
    by_cases hne : trim text = []
    · rw [readExpression, hne]
      exact .fail rfl _
    cases hnot : stripKeyword "NOT" (trim text) with
    | some rest =>
      have hrest := Nat.lt_of_lt_of_le (length_lt_of_stripKeyword_not hnot) hlength
      rw [readExpression_not hne hnot]
      exact (hshorter rest hrest (h.trim.stripKeyword (by decide) hnot)).bind fun _ _ => .ok _
    | none =>
      rw [readExpression_eq hne hnot]
      exact hshorter.disjunction (Nat.le_trans (length_trim_le text) hlength) h.trim

theorem nothingOpen_readExpression {text : List Char} (h : Balanced text) :
    NothingOpen (readExpression catalog text) :=
  readsClosed (text.length + 1) text (Nat.lt_succ_self _) h

/-! ### Stages -/

theorem nothingOpen_readArgumentValue {text : List Char} (h : Balanced text) :
    NothingOpen (readArgumentValue text) := by
  unfold readArgumentValue
  split
  · exact .fail rfl _
  · refine nothingOpen_readQuoted_bind h fun _ _ _ _ => ?_
    dsimp only
    split_ifs
    · exact .ok _
    · exact .fail rfl _
  split_ifs
  · exact .ok _
  · exact .ok _
  split
  · exact .ok _
  split
  · exact .ok _
  · exact .ok _

theorem nothingOpen_readArgument {text : List Char} (h : Balanced text) :
    NothingOpen (readArgument text) := by
  have hrest := h.takeName.trimStart
  unfold readArgument
  split_ifs
  · exact .fail rfl _
  dsimp only
  split
  · rename_i heq
    rw [heq] at hrest
    exact (nothingOpen_readArgumentValue (hrest.tail rfl).trim).map _
  · exact (nothingOpen_readArgumentValue h).map _

theorem nothingOpen_readStage {text : List Char} (h : Balanced text) :
    NothingOpen (readStage text) := by
  have htrim := h.trim
  unfold readStage
  split
  · rename_i rest heq
    rw [heq] at htrim
    dsimp only
    split_ifs
    · exact .fail rfl _
    split
    · exact .ok _
    split
    · exact .fail rfl _
    rename_i inner hgroup
    split_ifs
    · exact .ok _
    refine NothingOpen.bind (.mapM fun a ha => ?_) fun _ _ => .ok _
    have hinner : Balanced inner := .unwrapGroup (.inl rfl) hgroup
    exact nothingOpen_readArgument (hinner.splitTop rfl a ha).trim
  · exact .fail rfl _

/-! ### Parts and segments -/

theorem nothingOpen_readAggregation (text : List Char) : NothingOpen (readAggregation text) := by
  unfold readAggregation
  split_ifs
  · exact .ok _
  split
  · exact .ok _
  · exact .fail rfl _

theorem nothingOpen_readProjection (text : List Char) : NothingOpen (readProjection text) := by
  unfold readProjection
  dsimp only
  split_ifs
  · exact .ok _
  · split
    · exact .ok _
    · exact .ok _
  · exact .fail rfl _

theorem nothingOpen_readInnerAggregation (outer : Option Aggregation) (inner part : List Char) :
    NothingOpen (readInnerAggregation outer inner part) := by
  unfold readInnerAggregation
  split
  · split_ifs
    · exact .fail rfl _
    · exact .ok _
  · exact .ok _

theorem nothingOpen_readInnerProjection (inner : List Char) :
    NothingOpen (readInnerProjection inner) := by
  unfold readInnerProjection
  split
  · exact (nothingOpen_readProjection _).bind fun _ _ => .ok _
  · exact .ok _

theorem nothingOpen_readOuterProjection (inside : Option Projection) (trailing part : List Char) :
    NothingOpen (readOuterProjection inside trailing part) := by
  unfold readOuterProjection
  split
  · exact .ok _
  split
  · exact .fail rfl _
  split
  · exact .fail rfl _
  · exact (nothingOpen_readProjection _).map _

theorem Balanced.afterColumns {text : List Char} (h : Balanced text) :
    Balanced (afterColumns text) := by
  fun_induction Grammar.afterColumns text with
  | case1 text next hnext ih =>
    have hrest := h.takeName.trimStart
    rw [hnext] at hrest
    exact ih (hrest.tail rfl).trimStart
  | case2 text _ => exact h.takeName

theorem Balanced.splitProjection {text : List Char} (h : Balanced text) :
    Balanced (splitProjection text).2 := by
  have hstart := h.trimStart
  unfold Grammar.splitProjection
  dsimp only
  split
  · rename_i heq
    rw [heq] at hstart
    exact hstart.tail rfl
  · exact hstart.afterColumns

theorem Balanced.splitAggregation {text rest : List Char} {aggregation : Aggregation}
    (h : Balanced text) (hsplit : splitAggregation text = some (aggregation, rest)) :
    Balanced rest := by
  have hrest := h.takeName
  unfold Grammar.splitAggregation at hsplit
  dsimp only at hsplit
  split at hsplit
  · rename_i heq
    obtain ⟨-, rfl⟩ := Prod.mk.inj (Option.some.inj hsplit)
    rw [heq] at hrest
    have hbrackets : Balanced ['(', ')'] := rfl
    exact (hbrackets.of_append hrest).trimStart
  · cases hsplit

theorem Balanced.readInnerAggregation {outer aggregation : Option Aggregation}
    {inner part rest : List Char} (h : Balanced inner)
    (hread : readInnerAggregation outer inner part = .ok (aggregation, rest)) : Balanced rest := by
  unfold Grammar.readInnerAggregation at hread
  split at hread
  · rename_i hsplit
    split_ifs at hread
    · cases hread
    · obtain ⟨-, rfl⟩ := Prod.mk.inj (Except.ok.inj hread)
      exact h.splitAggregation hsplit
  · obtain ⟨-, rfl⟩ := Prod.mk.inj (Except.ok.inj hread)
    exact h

theorem Balanced.readInnerProjection {inner rest : List Char} {projection : Option Projection}
    (h : Balanced inner) (hread : readInnerProjection inner = .ok (projection, rest)) :
    Balanced rest := by
  unfold Grammar.readInnerProjection at hread
  split at hread
  · rename_i hstrip
    obtain ⟨_, -, hread⟩ := except_bind_eq_ok.mp hread
    obtain ⟨-, rfl⟩ := Prod.mk.inj (Except.ok.inj hread)
    exact (h.stripKeyword (by decide) hstrip).splitProjection
  · obtain ⟨-, rfl⟩ := Prod.mk.inj (Except.ok.inj hread)
    exact h

/-- **A part closes its bracket.** -/
theorem nothingOpen_readPart {part : List Char} (h : Balanced part) (hhead : part.head? = some '[')
    (outer : Option Aggregation) : NothingOpen (readPart catalog outer part) := by
  obtain ⟨cs, rfl⟩ := List.head?_eq_some_iff.mp hhead
  obtain ⟨inside, behind, hsplit, hinside, -⟩ := h.exists_splitGroup (.inr rfl)
  unfold readPart
  rw [hsplit]
  dsimp only
  refine (nothingOpen_readInnerAggregation _ _ _).bind fun r hr => ?_
  have hinner := hinside.trim.readInnerAggregation hr
  refine (nothingOpen_readInnerProjection _).bind fun q hq => ?_
  have hinner := hinner.readInnerProjection hq
  exact (nothingOpen_readOuterProjection _ _ _).bind fun _ _ =>
    (nothingOpen_readExpression hinner).bind fun _ _ => .ok _

theorem nothingOpen_readBindingKey (text segment : List Char) :
    NothingOpen (readBindingKey text segment) := by
  unfold readBindingKey
  split
  · dsimp only
    split_ifs
    · exact .fail rfl _
    · exact .ok _
  · exact .ok _

theorem nothingOpen_readBinding (segment : List Char) : NothingOpen (readBinding segment) := by
  unfold readBinding
  split
  · dsimp only
    split_ifs
    · exact .fail rfl _
    · exact .fail rfl _
    refine (nothingOpen_readBindingKey _ _).bind fun _ _ => ?_
    split
    · exact .ok _
    · exact .fail rfl _
  · exact .ok _

theorem Balanced.readBindingKey {text segment rest : List Char} {key : Option String}
    (h : Balanced text) (hread : readBindingKey text segment = .ok (key, rest)) :
    Balanced rest := by
  unfold Grammar.readBindingKey at hread
  split at hread
  · dsimp only at hread
    split_ifs at hread
    · cases hread
    · obtain ⟨-, rfl⟩ := Prod.mk.inj (Except.ok.inj hread)
      exact (h.tail rfl).takeName
  · obtain ⟨-, rfl⟩ := Prod.mk.inj (Except.ok.inj hread)
    exact h

theorem Balanced.readBinding {segment body : List Char} {binding : Option Binding}
    (h : Balanced segment) (hread : readBinding segment = .ok (binding, body)) :
    Balanced body := by
  unfold Grammar.readBinding at hread
  split at hread
  · dsimp only at hread
    split_ifs at hread
    · cases hread
    · cases hread
    obtain ⟨⟨key, rest⟩, hkey, hread⟩ := except_bind_eq_ok.mp hread
    have hrest := ((h.tail rfl).takeName.readBindingKey hkey).trimStart
    split at hread
    · rename_i heq
      obtain ⟨-, rfl⟩ := Prod.mk.inj (Except.ok.inj hread)
      dsimp only at heq
      rw [heq] at hrest
      exact (hrest.tail rfl).trim
    · cases hread
  · obtain ⟨-, rfl⟩ := Prod.mk.inj (Except.ok.inj hread)
    exact h

theorem nothingOpen_readSegment {segment : List Char} (h : Balanced segment) :
    NothingOpen (readSegment catalog segment) := by
  unfold readSegment
  refine (nothingOpen_readBinding _).bind fun r hr => ?_
  obtain ⟨binding, body⟩ := r
  have hbar : isPlain '|' = true := rfl
  obtain ⟨hquery, hstages⟩ := List.forall_mem_cons.mp ((h.readBinding hr).splitTop hbar)
  dsimp only
  refine NothingOpen.bind (.mapM fun t ht => nothingOpen_readStage (hstages t ht)) fun _ _ => ?_
  have hpart : ∀ part ∈ (splitParts (trim (splitTop '|' body).1)).2, ∀ outer,
      NothingOpen (readPart catalog outer (trim part)) := fun part hmem outer =>
    nothingOpen_readPart (hquery.trim.splitParts part hmem).trim
      (head?_trim_of_head? rfl (head?_of_mem_splitPartsFrom _ hmem)) outer
  split
  · exact .fail rfl _
  · rename_i first rest heq
    rw [heq] at hpart
    obtain ⟨hfirst, hrest⟩ := List.forall_mem_cons.mp hpart
    refine (nothingOpen_readAggregation _).bind fun _ _ => (hfirst _).bind fun _ _ => ?_
    exact NothingOpen.bind (.mapM fun t ht => hrest t ht _) fun _ _ => .ok _

/-- **In balanced text nothing is found open.** -/
theorem nothingOpen_readStatements {text : List Char} (h : isBalanced text = true) :
    NothingOpen (readStatements catalog text) := by
  rw [readStatements_of_isBalanced h]
  refine NothingOpen.bind (.mapM fun segment hmem => ?_) fun _ _ => .ok _
  obtain ⟨piece, hpiece, rfl⟩ := List.mem_map.mp (List.mem_filter.mp hmem).1
  have htext : Balanced text := isBalanced_iff.mp h
  exact nothingOpen_readSegment (htext.splitTop rfl piece hpiece).trim

end Grammar

end TableQuery
