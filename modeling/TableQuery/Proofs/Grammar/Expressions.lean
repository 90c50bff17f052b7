import TableQuery.Proofs.Grammar.Atoms

/-!
# Expressions read back

The printer puts parentheses only where reading would group the operands otherwise. That
it puts enough of them is an induction over the expression, and what it has to carry is
the level of the grammar at which the text of an expression reads back: every text as a
whole expression, one that is no negation as a chain of `OR`, one that is no disjunction
either as a chain of `AND`, and an atom as an operand (`TableQuery.Grammar.ReadsBack`).

The text is taken as its words (`TableQuery.Expression.words`), a wrapped operand being a
single one. At a level the words of an expression do not contain the connective of the
level above it, so the operand on the right of a connective is one piece, and the chain
on the left is read as if it stood alone (`TableQuery.Grammar.readPieces_append`).
-/

namespace TableQuery

open Grammar Text

/-! ### Words -/

namespace Grammar

/-- The words of an operand, which are one word if it is put in parentheses. -/
def groupWords (needed : Bool) (ws : List (List Char)) : List (List Char) :=
  if needed then ['(' :: unwords ws ++ [')']] else ws

theorem unwords_groupWords (needed : Bool) (ws : List (List Char)) :
    unwords (groupWords needed ws) = Expression.wrap needed (unwords ws) := by
  cases needed
  · rfl
  · simp [groupWords, Expression.wrap, unwords]

theorem word_of_mem_groupWords {needed : Bool} {ws : List (List Char)} (h : ∀ w ∈ ws, Word w) :
    ∀ w ∈ groupWords needed ws, Word w := by
  cases needed
  · exact h
  · intro w hw
    obtain rfl := List.mem_singleton.mp hw
    exact .group (nested_unwords h)

/-- The words begin like an atom or like a group. -/
def Begins (ws : List (List Char)) : Prop :=
  ∃ w rest, ws = w :: rest ∧ (w = "Where".toList ∨ ∃ inside, w = '(' :: inside)

/-- The words end, with a character that is not blank, in a word that is no connective. -/
def Ends (ws : List (List Char)) : Prop :=
  ∃ w, ws.getLast? = some w ∧ EndsSolid w ∧
    sameIgnoringCase w "AND".toList = false ∧ sameIgnoringCase w "OR".toList = false

section Shape

variable {ws vs : List (List Char)}

theorem Begins.append (h : Begins ws) (vs : List (List Char)) : Begins (ws ++ vs) := by
  obtain ⟨w, rest, rfl, hw⟩ := h
  exact ⟨w, rest ++ vs, rfl, hw⟩

theorem begins_group (inside : List Char) : Begins [('(' :: inside ++ [')'])] :=
  ⟨_, [], rfl, Or.inr ⟨inside ++ [')'], rfl⟩⟩

/-- Parentheses make any words begin like a group. -/
theorem begins_groupWords {needed : Bool} (h : needed = false → Begins ws) :
    Begins (groupWords needed ws) := by
  cases needed
  · exact h rfl
  · exact begins_group _

theorem Begins.ne_nil (h : Begins ws) : ws ≠ [] := by
  obtain ⟨w, rest, rfl, -⟩ := h
  exact List.cons_ne_nil _ _

theorem Begins.startsSolid (h : Begins ws) : StartsSolid (unwords ws) := by
  obtain ⟨w, rest, rfl, rfl | ⟨inside, rfl⟩⟩ := h
  · exact ⟨'W', _, rfl, rfl⟩
  · exact ⟨'(', _, rfl, rfl⟩

/-- The first word is no keyword but the one of atoms. -/
theorem Begins.first_ne {keyword : List Char} (hkey : IsKeyword keyword)
    (hwhere : sameIgnoringCase "Where".toList keyword = false) (h : Begins ws) :
    ∀ w ∈ ws.head?, sameIgnoringCase w keyword = false := by
  obtain ⟨w, rest, rfl, rfl | ⟨inside, rfl⟩⟩ := h
  · intro w hw
    obtain rfl := Option.some.inj hw
    exact hwhere
  · intro w hw
    obtain rfl := Option.some.inj hw
    exact sameIgnoringCase_of_head hkey rfl

theorem Begins.stripKeyword_eq_none {keyword : String} (hkey : IsKeyword keyword.toList)
    (hwhere : sameIgnoringCase "Where".toList keyword.toList = false)
    (hws : ∀ w ∈ ws, Word w) (h : Begins ws) : stripKeyword keyword (unwords ws) = none := by
  have hfirst := h.first_ne hkey hwhere
  obtain ⟨w, rest, rfl, -⟩ := h
  rw [unwords, stripKeyword_append hkey (hws w (List.mem_cons_self ..)) (endsWord_spaced rest),
    hfirst w rfl]
  rfl

theorem Ends.append (h : Ends vs) (ws : List (List Char)) : Ends (ws ++ vs) := by
  obtain ⟨w, hw, hends⟩ := h
  refine ⟨w, ?_, hends⟩
  rw [List.getLast?_append, hw, Option.some_or]

theorem ends_group (inside : List Char) : Ends [('(' :: inside ++ [')'])] :=
  ⟨_, rfl, ⟨')', '(' :: inside, rfl, rfl⟩, sameIgnoringCase_of_head (by decide) rfl,
    sameIgnoringCase_of_head (by decide) rfl⟩

theorem ends_groupWords {needed : Bool} (h : Ends ws) : Ends (groupWords needed ws) := by
  cases needed
  · exact h
  · exact ends_group _

theorem Ends.ne_nil (h : Ends ws) : ws ≠ [] := by
  rintro rfl
  obtain ⟨w, hw, -⟩ := h
  cases hw

theorem Ends.endsSolid (h : Ends ws) : EndsSolid (unwords ws) := by
  obtain ⟨w, hw, hsolid, -⟩ := h
  obtain ⟨front, rfl⟩ := List.getLast?_eq_some_iff.mp hw
  cases front with
  | nil =>
    rw [List.nil_append, unwords, spaced_nil, List.append_nil]
    exact hsolid
  | cons v front =>
    rw [unwords_append (List.cons_ne_nil _ _)]
    have hlast : EndsSolid (spaced [w]) := by
      rw [spaced_of_ne_nil (List.cons_ne_nil _ _), unwords, spaced_nil, List.append_nil]
      exact hsolid.append [' ']
    exact hlast.append _

theorem Ends.last_ne_and (h : Ends ws) :
    ∀ w ∈ ws.getLast?, sameIgnoringCase w "AND".toList = false := by
  obtain ⟨w, hw, -, hand, -⟩ := h
  intro v hv
  rw [hw] at hv
  obtain rfl := Option.some.inj hv
  exact hand

theorem Ends.last_ne_or (h : Ends ws) :
    ∀ w ∈ ws.getLast?, sameIgnoringCase w "OR".toList = false := by
  obtain ⟨w, hw, -, -, hor⟩ := h
  intro v hv
  rw [hw] at hv
  obtain rfl := Option.some.inj hv
  exact hor

theorem free_group {keyword : String} (hkey : IsKeyword keyword.toList) (inside : List Char) :
    Free keyword [('(' :: inside ++ [')'])] := by
  intro w hw
  obtain rfl := List.mem_singleton.mp hw
  exact sameIgnoringCase_of_head hkey rfl

/-- Parentheses hide a keyword. -/
theorem free_groupWords {keyword : String} (hkey : IsKeyword keyword.toList) {needed : Bool}
    (h : needed = false → Free keyword ws) : Free keyword (groupWords needed ws) := by
  cases needed
  · exact h rfl
  · exact free_group hkey _

theorem trim_spaced (hbegins : Begins ws) (hends : Ends ws) : trim (spaced ws) = unwords ws := by
  rw [spaced_of_ne_nil hbegins.ne_nil]
  exact trim_cons_of_isBlank rfl hbegins.startsSolid hends.endsSolid

end Shape

end Grammar

namespace Expression

/-- The words of a written expression. -/
def words : Expression → List (List Char)
  | or l r =>
    groupWords l.isNot l.words ++ "OR".toList :: groupWords (r.isOr || r.isNot) r.words
  | and l r =>
    groupWords (l.isOr || l.isNot) l.words ++ "AND".toList :: groupWords (!r.isAtom) r.words
  | not e => "NOT".toList :: e.words
  | atom a => a.words

variable {catalog : Catalog} {e l r : Expression}

theorem begins_words (h : e.isNot = false) : Begins e.words := by
  induction e with
  | or l r ihl ihr => exact (begins_groupWords ihl).append _
  | and l r ihl ihr =>
    refine (begins_groupWords fun hneeded => ihl ?_).append _
    exact (Bool.or_eq_false_iff.mp hneeded).2
  | not e ih => cases h
  | atom a =>
    cases a with
    | condition table columns literal => exact ⟨_, _, rfl, Or.inl rfl⟩
    | relation direction source target => exact ⟨_, _, rfl, Or.inl rfl⟩
    | never => exact ⟨_, _, rfl, Or.inl rfl⟩

theorem words_ne_nil (e : Expression) : e.words ≠ [] := by
  cases e with
  | not e => exact List.cons_ne_nil _ _
  | or l r => exact (begins_words rfl).ne_nil
  | and l r => exact (begins_words rfl).ne_nil
  | atom a => exact (begins_words rfl).ne_nil

theorem render_eq_unwords (e : Expression) : e.render = unwords e.words := by
  have hjoin : ∀ (ws vs : List (List Char)) (k : List Char), ws ≠ [] → vs ≠ [] →
      unwords (ws ++ k :: vs) = unwords ws ++ (' ' :: k ++ [' ']) ++ unwords vs := by
    intro ws vs k hws hvs
    rw [unwords_append hws]
    obtain ⟨v, vs, rfl⟩ := List.exists_cons_of_ne_nil hvs
    simp [unwords, spaced]
  have hgroup : ∀ (needed : Bool) (e : Expression), groupWords needed e.words ≠ [] := by
    intro needed e
    cases needed
    · exact words_ne_nil e
    · exact List.cons_ne_nil _ _
  induction e with
  | or l r ihl ihr | and l r ihl ihr =>
    rw [words, hjoin _ _ _ (hgroup _ l) (hgroup _ r), unwords_groupWords, unwords_groupWords,
      ← ihl, ← ihr]
    rfl
  | not e ih =>
    rw [words, unwords, spaced_of_ne_nil (words_ne_nil e), ← ih]
    rfl
  | atom a => exact a.render_eq_unwords

/-! #### Printable expressions -/

theorem Printable.left (h : ∀ a ∈ l.atoms ++ r.atoms, a.Printable catalog) :
    l.Printable catalog := fun a ha => h a (List.mem_append_left _ ha)

theorem Printable.right (h : ∀ a ∈ l.atoms ++ r.atoms, a.Printable catalog) :
    r.Printable catalog := fun a ha => h a (List.mem_append_right _ ha)

theorem word_of_mem_words (hc : catalog.Built) (h : e.Printable catalog) :
    ∀ w ∈ e.words, Word w := by
  have hchain : ∀ {ws vs : List (List Char)} {k : List Char}, Word k → (∀ w ∈ ws, Word w) →
      (∀ w ∈ vs, Word w) → ∀ w ∈ ws ++ k :: vs, Word w := by
    intro ws vs k hk hws hvs w hw
    rcases List.mem_append.mp hw with hw | hw
    · exact hws w hw
    · rcases List.mem_cons.mp hw with rfl | hw
      · exact hk
      · exact hvs w hw
  induction e with
  | or l r ihl ihr | and l r ihl ihr =>
    exact hchain (.of_isNameChar (by decide) (by decide))
      (word_of_mem_groupWords (ihl (Printable.left h)))
      (word_of_mem_groupWords (ihr (Printable.right h)))
  | not e ih =>
    intro w hw
    rcases List.mem_cons.mp hw with rfl | hw
    · exact .of_isNameChar (by decide) (by decide)
    · exact ih h w hw
  | atom a => exact a.word_of_mem_words hc (h a (List.mem_singleton_self a))

theorem startsSolid_words (e : Expression) : StartsSolid (unwords e.words) := by
  cases e with
  | not e => exact ⟨'N', _, rfl, rfl⟩
  | or l r => exact (begins_words rfl).startsSolid
  | and l r => exact (begins_words rfl).startsSolid
  | atom a => exact (begins_words rfl).startsSolid

theorem ne_nil_of_eq_words {text : List Char} (h : text = unwords e.words) : text ≠ [] := by
  obtain ⟨c, cs, hcs, -⟩ := e.startsSolid_words
  rw [h, hcs]
  exact List.cons_ne_nil _ _

theorem ends_words (hc : catalog.Built) (h : e.Printable catalog) : Ends e.words := by
  induction e with
  | or l r ihl ihr =>
    have hright : Ends (groupWords (r.isOr || r.isNot) r.words) :=
      ends_groupWords (ihr (Printable.right h))
    exact (hright.append ["OR".toList]).append _
  | and l r ihl ihr =>
    have hright : Ends (groupWords (!r.isAtom) r.words) :=
      ends_groupWords (ihr (Printable.right h))
    exact (hright.append ["AND".toList]).append _
  | not e ih => exact (ih h).append ["NOT".toList]
  | atom a =>
    have ha : a.Printable catalog := h a (List.mem_singleton_self a)
    have hand := Atom.free_and_words ha
    have hor := Atom.free_or_words ha
    have hlast : a.words.getLast? = some (a.words.getLast a.words_ne_nil) :=
      List.getLast?_eq_some_getLast _
    have hmem := List.getLast_mem a.words_ne_nil
    exact ⟨_, hlast, a.endsSolid_of_last hc ha _ hlast, hand _ hmem, hor _ hmem⟩

theorem trim_words (hc : catalog.Built) (h : e.Printable catalog) :
    trim (unwords e.words) = unwords e.words :=
  trim_of_solid e.startsSolid_words (ends_words hc h).endsSolid

/-- An atom holds no `AND`. -/
theorem free_and (h : e.Printable catalog) (hatom : e.isAtom = true) : Free "AND" e.words := by
  cases e with
  | atom a => exact Atom.free_and_words (h a (List.mem_singleton_self a))
  | or l r => cases hatom
  | and l r => cases hatom
  | not e => cases hatom

/-- **A chain of `AND` holds no `OR`**: every disjunction under it is wrapped. -/
theorem free_or (h : e.Printable catalog) (hor : e.isOr = false) (hnot : e.isNot = false) :
    Free "OR" e.words := by
  induction e with
  | or l r ihl ihr => cases hor
  | and l r ihl ihr =>
    intro w hw
    rcases List.mem_append.mp hw with hw | hw
    · refine free_groupWords (by decide) (fun hneeded => ?_) w hw
      obtain ⟨hlor, hlnot⟩ := Bool.or_eq_false_iff.mp hneeded
      exact ihl (Printable.left h) hlor hlnot
    · rcases List.mem_cons.mp hw with rfl | hw
      · decide
      · refine free_groupWords (by decide) (fun hneeded => ?_) w hw
        -- the right operand of an `AND` stands without parentheses only if it is an atom
        have hatom : r.isAtom = true := by simpa using hneeded
        cases r with
        | atom a => exact ihr (Printable.right h) rfl rfl
        | or l r => cases hatom
        | and l r => cases hatom
        | not e => cases hatom
  | not e ih => cases hnot
  | atom a => exact Atom.free_or_words (h a (List.mem_singleton_self a))

end Expression

/-! ### Reading pieces -/

namespace Grammar

/-- The pieces of a chain, read one by one and joined from the left. -/
def readPieces (read : List Char → Except Error Expression)
    (join : Expression → Expression → Expression) (p : Pieces) : Except Error Expression := do
  let first ← read p.1
  p.2.foldlM (fun e t => do return join e (← read t)) first

section Pieces

variable {read : List Char → Except Error Expression}
  {join : Expression → Expression → Expression}

/-- A chain breaks off with its first piece. -/
theorem readPieces_eq_error {p : Pieces} {e : Error} (h : read p.1 = .error e) :
    readPieces read join p = .error e := by
  rw [readPieces, h]
  rfl

theorem readPieces_single (text : List Char) : readPieces read join (text, []) = read text := by
  rw [readPieces]
  cases read text <;> rfl

/-- **One more piece is read last** and joined to all before it. -/
theorem readPieces_append (p : Pieces) (text : List Char) :
    readPieces read join (p.1, p.2 ++ [text]) =
      (do return join (← readPieces read join p) (← read text)) := by
  simp only [readPieces, List.foldlM_append, bind_assoc, List.foldlM_cons, List.foldlM_nil,
    bind_pure]

theorem readPieces_congr_first {p : Pieces} {a b : List Char}
    (h : read (a ++ p.1) = read (b ++ p.1)) :
    readPieces read join (p.growAll a) = readPieces read join (p.growAll b) := by
  simp only [readPieces, Pieces.growAll, h]

end Pieces

variable {catalog : Catalog}

/-! ### The readers -/

theorem readConjunction_eq (text : List Char) :
    readConjunction catalog text =
      readPieces (readOperand catalog) .and (splitKeyword "AND" text) := by
  rw [readConjunction, readPieces]
  simp [List.foldlM_subtype]

/-- What reads a chain of `OR`. -/
def readDisjunction (catalog : Catalog) (text : List Char) : Except Error Expression :=
  readPieces (readConjunction catalog) .or (splitKeyword "OR" text)

theorem readExpression_eq {text : List Char} (hne : trim text ≠ [])
    (hnot : stripKeyword "NOT" (trim text) = none) :
    readExpression catalog text = readDisjunction catalog (trim text) := by
  have hempty : (trim text).isEmpty = false := by simp [hne]
  rw [readExpression, hempty, if_neg Bool.false_ne_true]
  split
  · rename_i rest h
    rw [hnot] at h
    cases h
  · rw [readDisjunction, readPieces]
    simp [List.foldlM_subtype]

theorem readExpression_not {text rest : List Char} (hne : trim text ≠ [])
    (hnot : stripKeyword "NOT" (trim text) = some rest) :
    readExpression catalog text = (do return .not (← readExpression catalog rest)) := by
  have hempty : (trim text).isEmpty = false := by simp [hne]
  rw [readExpression, hempty, if_neg Bool.false_ne_true]
  split
  · rename_i rest' h
    rw [hnot] at h
    obtain rfl := Option.some.inj h
    rfl
  · rename_i h
    rw [hnot] at h
    cases h

/-- An operand is read without the blanks around it. -/
theorem readOperand_congr {a b : List Char} (h : trim a = trim b) :
    readOperand catalog a = readOperand catalog b := by
  rw [readOperand, readOperand, h]

/-- Blanks at the ends of an expression do not count. -/
theorem readExpression_congr {a b : List Char} (h : trim a = trim b) :
    readExpression catalog a = readExpression catalog b := by
  rw [readExpression, readExpression, h]

theorem readOperand_atom {text : List Char} (hne : trim text ≠ [])
    (hnot : stripKeyword "NOT" (trim text) = none) (hgroup : unwrapGroup '(' (trim text) = none) :
    readOperand catalog text = (do return .atom (← readAtom catalog (trim text))) := by
  have hempty : (trim text).isEmpty = false := by simp [hne]
  rw [readOperand, hempty, if_neg Bool.false_ne_true]
  split
  · rename_i rest h
    rw [hnot] at h
    cases h
  · split
    · rename_i inner h
      rw [hgroup] at h
      cases h
    · rfl

/-- A group is read as the expression in it. -/
theorem readOperand_group {text inside : List Char} (h : Nested (fun _ => True) inside)
    (htrim : trim text = '(' :: inside ++ [')']) :
    readOperand catalog text = readExpression catalog inside := by
  have hnot : stripKeyword "NOT" ('(' :: inside ++ [')']) = none :=
    stripKeyword_of_head (by decide) (by decide) rfl
  rw [readOperand, htrim, show ('(' :: inside ++ [')']).isEmpty = false from rfl,
    if_neg Bool.false_ne_true]
  split
  · rename_i rest h'
    rw [hnot] at h'
    cases h'
  · split
    · rename_i inner h'
      rw [unwrapGroup_group h] at h'
      obtain rfl := Option.some.inj h'
      rfl
    · rename_i h'
      rw [unwrapGroup_group h] at h'
      cases h'

section Chains

variable {ws vs : List (List Char)}

/-- Words without `AND` are one operand. -/
theorem readConjunction_of_free (hws : ∀ w ∈ ws, Word w) (hfree : Free "AND" ws) :
    readConjunction catalog (unwords ws) = readOperand catalog (unwords ws) := by
  rw [readConjunction_eq, splitKeyword_unwords_of_free (by decide) hws hfree, readPieces_single]

/-- Words without `OR` are one chain of `AND`. -/
theorem readDisjunction_of_free (hws : ∀ w ∈ ws, Word w) (hfree : Free "OR" ws) :
    readDisjunction catalog (unwords ws) = readConjunction catalog (unwords ws) := by
  rw [readDisjunction, splitKeyword_unwords_of_free (by decide) hws hfree, readPieces_single]

/-- A blank in front of a chain of `AND` goes with its first operand. -/
theorem readConjunction_spaced (hws : ∀ w ∈ ws, Word w) (hbegins : Begins ws) :
    readConjunction catalog (spaced ws) = readConjunction catalog (unwords ws) := by
  have hfirst : ∀ w ∈ ws.head?, sameIgnoringCase w "AND".toList = false :=
    hbegins.first_ne (by decide) (by decide)
  obtain ⟨w, rest, rfl, -⟩ := hbegins
  have hw := hws w (List.mem_cons_self ..)
  have hcut : (sameIgnoringCase w "AND".toList && !rest.isEmpty) = false := by
    rw [hfirst w rfl, Bool.false_and]
  have hspaced : splitKeyword "AND" (spaced (w :: rest)) =
      (splitKeywordFrom "AND".toList {} 0 (spaced rest)).growAll (' ' :: w) := by
    rw [splitKeyword, splitKeywordFrom_spaced_cons (by decide) hw, hcut]
    rfl
  rw [readConjunction_eq, readConjunction_eq, splitKeyword_unwords_cons hw, hspaced]
  refine readPieces_congr_first (readOperand_congr ?_)
  show trim (' ' :: (w ++ _)) = trim (w ++ _)
  rw [trim, trimStart_cons_of_isBlank rfl]
  rfl

/-- **An operand behind an `AND`** is read on its own and joined to the chain. -/
theorem readConjunction_and (hws : ∀ w ∈ ws, Word w) (hends : Ends ws)
    (hvs : ∀ v ∈ vs, Word v) (hne : vs ≠ []) (hfree : Free "AND" vs) :
    readConjunction catalog (unwords (ws ++ "AND".toList :: vs)) =
      (do
        let l ← readConjunction catalog (unwords ws)
        return .and l (← readOperand catalog (spaced vs))) := by
  have hword : Word "AND".toList := .of_isNameChar (by decide) (by decide)
  rw [readConjunction_eq, splitKeyword_unwords_append (by decide) hws hends.ne_nil
    hends.last_ne_and hvs hne hfree hword, readPieces_append, ← readConjunction_eq]

/-- **A chain of `AND` behind an `OR`** is read on its own and joined to the chain. -/
theorem readDisjunction_or (hws : ∀ w ∈ ws, Word w) (hends : Ends ws)
    (hvs : ∀ v ∈ vs, Word v) (hne : vs ≠ []) (hfree : Free "OR" vs) :
    readDisjunction catalog (unwords (ws ++ "OR".toList :: vs)) =
      (do
        let l ← readDisjunction catalog (unwords ws)
        return .or l (← readConjunction catalog (spaced vs))) := by
  have hword : Word "OR".toList := .of_isNameChar (by decide) (by decide)
  rw [readDisjunction, splitKeyword_unwords_append (by decide) hws hends.ne_nil
    hends.last_ne_or hvs hne hfree hword, readPieces_append]
  rfl

end Chains

/-! ### Reading back -/

/-- An expression reads back at every level of the grammar at which it stands without
parentheses. -/
structure ReadsBack (catalog : Catalog) (e : Expression) : Prop where
  expression : ∀ text, trim text = unwords e.words → readExpression catalog text = .ok e
  disjunction : e.isNot = false → readDisjunction catalog (unwords e.words) = .ok e
  conjunction : e.isNot = false → e.isOr = false →
    readConjunction catalog (unwords e.words) = .ok e
  operand : e.isAtom = true → ∀ text, trim text = unwords e.words →
    readOperand catalog text = .ok e

section Operands

variable {e l r : Expression} {needed : Bool}

/-- What stands in parentheses reads back as an operand. -/
theorem ReadsBack.operand_group (hback : ReadsBack catalog e) (hc : catalog.Built)
    (h : e.Printable catalog) {text : List Char}
    (htrim : trim text = '(' :: unwords e.words ++ [')']) : readOperand catalog text = .ok e := by
  have hnested := nested_unwords (Expression.word_of_mem_words hc h)
  rw [readOperand_group hnested htrim]
  exact hback.expression _ (Expression.trim_words hc h)

theorem trim_group (inside : List Char) :
    trim (unwords ['(' :: inside ++ [')']]) = '(' :: inside ++ [')'] := by
  rw [unwords, spaced_nil, List.append_nil]
  exact trim_of_solid ⟨'(', _, rfl, rfl⟩ ⟨')', '(' :: inside, rfl, rfl⟩

theorem word_group_words (hc : catalog.Built) (h : e.Printable catalog) :
    ∀ w ∈ [('(' :: unwords e.words ++ [')'])], Word w := by
  intro w hw
  obtain rfl := List.mem_singleton.mp hw
  exact .group (nested_unwords (Expression.word_of_mem_words hc h))

/-- The operand on the right of an `AND`, with the blank in front of it. -/
theorem ReadsBack.operand_groupWords (hback : ReadsBack catalog e) (hc : catalog.Built)
    (h : e.Printable catalog) (hatom : needed = false → e.isAtom = true) :
    readOperand catalog (spaced (groupWords needed e.words)) = .ok e := by
  cases needed with
  | false =>
    have hbegins := Expression.begins_words (e := e) (by cases e <;> first | rfl | cases hatom rfl)
    exact hback.operand (hatom rfl) _ (trim_spaced hbegins (Expression.ends_words hc h))
  | true =>
    refine hback.operand_group hc h ?_
    exact (trim_spaced (begins_group _) (ends_group _)).trans (by simp [unwords])

/-- A chain of `AND`, in parentheses where needed. -/
theorem ReadsBack.conjunction_groupWords (hback : ReadsBack catalog e) (hc : catalog.Built)
    (h : e.Printable catalog) (hneeded : needed = false → e.isNot = false ∧ e.isOr = false) :
    readConjunction catalog (unwords (groupWords needed e.words)) = .ok e := by
  cases needed with
  | false => exact hback.conjunction (hneeded rfl).1 (hneeded rfl).2
  | true =>
    rw [groupWords, if_pos rfl,
      readConjunction_of_free (word_group_words hc h) (free_group (by decide) _)]
    exact hback.operand_group hc h (trim_group _)

/-- A chain of `OR`, in parentheses where needed. -/
theorem ReadsBack.disjunction_groupWords (hback : ReadsBack catalog e) (hc : catalog.Built)
    (h : e.Printable catalog) (hneeded : needed = false → e.isNot = false) :
    readDisjunction catalog (unwords (groupWords needed e.words)) = .ok e := by
  cases needed with
  | false => exact hback.disjunction (hneeded rfl)
  | true =>
    rw [groupWords, if_pos rfl,
      readDisjunction_of_free (word_group_words hc h) (free_group (by decide) _),
      readConjunction_of_free (word_group_words hc h) (free_group (by decide) _)]
    exact hback.operand_group hc h (trim_group _)

/-- What is no negation reads back as an expression if it does so as a chain of `OR`. -/
theorem readExpression_of_readDisjunction (hc : catalog.Built) (h : e.Printable catalog)
    (hnot : e.isNot = false) (hback : readDisjunction catalog (unwords e.words) = .ok e)
    {text : List Char} (htrim : trim text = unwords e.words) :
    readExpression catalog text = .ok e := by
  have hbegins := Expression.begins_words hnot
  have hstrip : stripKeyword "NOT" (trim text) = none := by
    rw [htrim]
    exact hbegins.stripKeyword_eq_none (by decide) (by decide)
      (Expression.word_of_mem_words hc h)
  rw [readExpression_eq (Expression.ne_nil_of_eq_words htrim) hstrip, htrim, hback]

end Operands

variable {e l r : Expression}

theorem readsBack_atom (hc : catalog.Built) {a : Atom} (h : a.Printable catalog) :
    ReadsBack catalog (.atom a) := by
  have he : (Expression.atom a).Printable catalog := fun b hb => by
    obtain rfl := List.mem_singleton.mp hb
    exact h
  have hwords : ∀ w ∈ a.words, Word w := a.word_of_mem_words hc h
  have hand : Free "AND" a.words := Expression.free_and he rfl
  have hor : Free "OR" a.words := Expression.free_or he rfl rfl
  have hread : readAtom catalog (unwords a.words) = .ok a := by
    rw [← a.render_eq_unwords]
    exact a.readAtom_render hc h
  have hoperand : ∀ text, trim text = unwords a.words →
      readOperand catalog text = .ok (.atom a) := by
    intro text htrim
    -- the first word is neither a negation nor a group
    have hnot : stripKeyword "NOT" (trim text) = none := by
      rw [htrim]
      exact (Expression.begins_words (e := .atom a) rfl).stripKeyword_eq_none (by decide)
        (by decide) hwords
    have hgroup : unwrapGroup '(' (trim text) = none := by
      obtain ⟨rest, hrest⟩ : ∃ rest, unwords a.words = 'W' :: rest := by
        cases a <;> exact ⟨_, rfl⟩
      rw [htrim, hrest]
      exact unwrapGroup_of_ne (by decide) rest
    have hne := Expression.ne_nil_of_eq_words (e := .atom a) htrim
    rw [readOperand_atom hne hnot hgroup, htrim, hread]
    rfl
  have hconjunction : readConjunction catalog (unwords a.words) = .ok (.atom a) := by
    rw [readConjunction_of_free hwords hand]
    exact hoperand _ (Expression.trim_words hc he)
  have hdisjunction : readDisjunction catalog (unwords a.words) = .ok (.atom a) := by
    rw [readDisjunction_of_free hwords hor, hconjunction]
  exact {
    expression := fun text htrim =>
      readExpression_of_readDisjunction hc he rfl hdisjunction htrim
    disjunction := fun _ => hdisjunction
    conjunction := fun _ _ => hconjunction
    operand := fun _ => hoperand }

theorem readsBack_and (hc : catalog.Built) (h : (Expression.and l r).Printable catalog)
    (hl : ReadsBack catalog l) (hr : ReadsBack catalog r) : ReadsBack catalog (.and l r) := by
  have hpl := Expression.Printable.left h
  have hpr := Expression.Printable.right h
  have hwords := Expression.word_of_mem_words hc h
  have hconjunction :
      readConjunction catalog (unwords (Expression.and l r).words) = .ok (.and l r) := by
    -- the left operand goes on with the chain, unless it has to be wrapped
    have hleft : readConjunction catalog (unwords (groupWords (l.isOr || l.isNot) l.words)) =
        .ok l := by
      refine hl.conjunction_groupWords hc hpl fun hneeded => ?_
      exact (Bool.or_eq_false_iff.mp hneeded).symm
    -- the right one is a single operand, as anything but an atom is wrapped
    have hright : readOperand catalog (spaced (groupWords (!r.isAtom) r.words)) = .ok r :=
      hr.operand_groupWords hc hpr fun hneeded => by simpa using hneeded
    have hfree : Free "AND" (groupWords (!r.isAtom) r.words) :=
      free_groupWords (by decide) fun hneeded => Expression.free_and hpr (by simpa using hneeded)
    rw [Expression.words, readConjunction_and
      (word_of_mem_groupWords (Expression.word_of_mem_words hc hpl))
      (ends_groupWords (Expression.ends_words hc hpl))
      (word_of_mem_groupWords (Expression.word_of_mem_words hc hpr))
      (ends_groupWords (Expression.ends_words hc hpr)).ne_nil hfree, hleft, hright]
    rfl
  have hdisjunction :
      readDisjunction catalog (unwords (Expression.and l r).words) = .ok (.and l r) := by
    rw [readDisjunction_of_free hwords (Expression.free_or h rfl rfl), hconjunction]
  exact {
    expression := fun text htrim =>
      readExpression_of_readDisjunction hc h rfl hdisjunction htrim
    disjunction := fun _ => hdisjunction
    conjunction := fun _ _ => hconjunction
    operand := fun hatom => by cases hatom }

theorem readsBack_or (hc : catalog.Built) (h : (Expression.or l r).Printable catalog)
    (hl : ReadsBack catalog l) (hr : ReadsBack catalog r) : ReadsBack catalog (.or l r) := by
  have hpl := Expression.Printable.left h
  have hpr := Expression.Printable.right h
  have hdisjunction :
      readDisjunction catalog (unwords (Expression.or l r).words) = .ok (.or l r) := by
    -- only a negation cannot begin a chain of `OR`
    have hleft : readDisjunction catalog (unwords (groupWords l.isNot l.words)) = .ok l :=
      hl.disjunction_groupWords hc hpl fun hneeded => hneeded
    have hneeded' : (r.isOr || r.isNot) = false → r.isNot = false ∧ r.isOr = false :=
      fun hneeded => (Bool.or_eq_false_iff.mp hneeded).symm
    have hwords : ∀ w ∈ groupWords (r.isOr || r.isNot) r.words, Word w :=
      word_of_mem_groupWords (Expression.word_of_mem_words hc hpr)
    -- the right operand is a chain of `AND` of its own
    have hright :
        readConjunction catalog (spaced (groupWords (r.isOr || r.isNot) r.words)) = .ok r := by
      rw [readConjunction_spaced hwords (begins_groupWords fun hneeded =>
        Expression.begins_words (hneeded' hneeded).1)]
      exact hr.conjunction_groupWords hc hpr hneeded'
    have hfree : Free "OR" (groupWords (r.isOr || r.isNot) r.words) :=
      free_groupWords (by decide) fun hneeded =>
        Expression.free_or hpr (hneeded' hneeded).2 (hneeded' hneeded).1
    rw [Expression.words, readDisjunction_or
      (word_of_mem_groupWords (Expression.word_of_mem_words hc hpl))
      (ends_groupWords (Expression.ends_words hc hpl)) hwords
      (ends_groupWords (Expression.ends_words hc hpr)).ne_nil hfree, hleft, hright]
    rfl
  exact {
    expression := fun text htrim =>
      readExpression_of_readDisjunction hc h rfl hdisjunction htrim
    disjunction := fun _ => hdisjunction
    conjunction := fun _ hor => by cases hor
    operand := fun hatom => by cases hatom }

/-- A negation takes the rest of its clause, and is in parentheses wherever something
follows it. -/
theorem readsBack_not (hc : catalog.Built) (h : (Expression.not e).Printable catalog)
    (he : ReadsBack catalog e) : ReadsBack catalog (.not e) := by
  have hpe : e.Printable catalog := h
  have hexpression : ∀ text, trim text = unwords (Expression.not e).words →
      readExpression catalog text = .ok (.not e) := by
    intro text htrim
    have hwords : unwords (Expression.not e).words = "NOT".toList ++ spaced e.words := rfl
    -- the first word is taken off, and all the others are the negated expression
    have hstrip : stripKeyword "NOT" (trim text) = some (unwords e.words) := by
      rw [htrim, hwords, stripKeyword_append (by decide)
        (.of_isNameChar (by decide) (by decide)) (endsWord_spaced _), if_pos (by decide),
        spaced_of_ne_nil e.words_ne_nil, trimStart_cons_of_isBlank rfl,
        trimStart_of_startsSolid e.startsSolid_words]
    rw [readExpression_not (Expression.ne_nil_of_eq_words htrim) hstrip,
      he.expression _ (Expression.trim_words hc hpe)]
    rfl
  exact {
    expression := hexpression
    disjunction := fun hnot => by cases hnot
    conjunction := fun hnot => by cases hnot
    operand := fun hatom => by cases hatom }

/-- **Every printable expression reads back.** -/
theorem readsBack (hc : catalog.Built) (h : e.Printable catalog) : ReadsBack catalog e := by
  induction e with
  | and l r ihl ihr =>
    exact readsBack_and hc h (ihl (Expression.Printable.left h))
      (ihr (Expression.Printable.right h))
  | or l r ihl ihr =>
    exact readsBack_or hc h (ihl (Expression.Printable.left h))
      (ihr (Expression.Printable.right h))
  | not e ih => exact readsBack_not hc h (ih h)
  | atom a => exact readsBack_atom hc (h a (List.mem_singleton_self a))

end Grammar

end TableQuery
