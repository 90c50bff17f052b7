import TableQuery.Proofs.Grammar.Segments
import TableQuery.Proofs.Grammar.WellFormed

/-!
# Expressions are balanced

An expression is read from a text of its own, and nobody checks that text for open
brackets and literals first. It need not be done: whatever is read as an expression is
balanced (`TableQuery.Grammar.balanced_of_readExpression`). The operands are taken off at
keywords at the top level, a group is taken off with its closing bracket, and of an atom
everything but the parentheses of its literal is names, arrows, commas and blanks.

For that reason an accepted text may be put between brackets, behind other text or in
front of it, and is found again as it was. What it begins with matters there too: the
keyword of an atom or of a negation, or a parenthesis
(`TableQuery.Grammar.begins_of_readExpression`), and so neither an aggregation nor a
projection.
-/

namespace TableQuery

namespace Grammar

open Text

/-! ### Blanks and keywords -/

theorem isPlain_of_isBlank {c : Char} (h : isBlank c = true) : isPlain c = true := by
  refine Bool.not_eq_true' _ ▸ Bool.eq_false_iff.mpr fun hbracket => ?_
  simp only [Bool.or_eq_true, beq_iff_eq] at hbracket
  rcases hbracket with (((rfl | rfl) | rfl) | rfl) | rfl <;> cases h

theorem isPlain_of_isAsciiBlank {c : Char} (h : isAsciiBlank c = true) : isPlain c = true :=
  isPlain_of_isBlank (isBlank_of_isAsciiBlank h)

/-- Blanks at the ends of a text do not count. -/
theorem Balanced.of_trim {text : List Char} (h : Balanced (trim text)) : Balanced text := by
  obtain ⟨front, back, htext, hfront, hback⟩ := exists_append_trim text
  rw [htext]
  exact ((Balanced.of_isPlain fun c hc => isPlain_of_isBlank (hfront c hc)).append h).append
    (.of_isPlain fun c hc => isPlain_of_isBlank (hback c hc))

/-- The keyword of a text, the blanks behind it, and what follows. -/
theorem exists_of_stripKeyword {keyword : String} {text rest : List Char}
    (h : stripKeyword keyword text = some rest) :
    ∃ word blanks, text = word ++ blanks ++ rest ∧
      sameIgnoringCase word keyword.toList = true ∧ ∀ c ∈ blanks, isBlank c = true := by
  unfold stripKeyword at h
  dsimp only at h
  split at h
  case isFalse => cases h
  case isTrue hsame =>
    have htext := List.take_append_drop keyword.toList.length text
    cases hdrop : text.drop keyword.toList.length with
    | nil =>
      simp only [hdrop] at h
      obtain rfl := Option.some.inj h
      exact ⟨_, [], by rw [List.append_nil, ← hdrop, htext], hsame, by simp⟩
    | cons c cs =>
      simp only [hdrop] at h
      split at h
      case isFalse => cases h
      case isTrue =>
        obtain rfl := Option.some.inj h
        refine ⟨_, (c :: cs).takeWhile isBlank, ?_, hsame,
          fun d hd => List.all_eq_true.mp List.all_takeWhile d hd⟩
        rw [List.append_assoc, trimStart, List.takeWhile_append_dropWhile, ← hdrop, htext]

theorem Balanced.of_stripKeyword {keyword : String} (hkey : IsKeyword keyword.toList)
    {text rest : List Char} (h : stripKeyword keyword text = some rest) (hrest : Balanced rest) :
    Balanced text := by
  obtain ⟨word, blanks, rfl, hsame, hblanks⟩ := exists_of_stripKeyword h
  have hword := isNameChar_of_sameIgnoringCase hsame hkey
  exact ((Balanced.of_isPlain fun c hc => isPlain_of_isNameChar (hword c hc)).append
    (.of_isPlain fun c hc => isPlain_of_isBlank (hblanks c hc))).append hrest

/-- A text that is cut at keywords into balanced pieces is balanced: behind each of them the
scan is where it began. By induction on the length of the text, since behind a keyword the
cut goes on after its last character. -/
theorem run_of_splitKeywordFrom {keyword : List Char} (hkey : IsKeyword keyword) (length : Nat) :
    ∀ {text : List Char} {s : Scan}, text.length ≤ length →
      s.run (splitKeywordFrom keyword s 0 text).1 = {} →
        (∀ p ∈ (splitKeywordFrom keyword s 0 text).2, Balanced p) → s.run text = {} := by
  induction length with
  | zero =>
    intro text s hlength hfirst _
    obtain rfl := List.length_eq_zero_iff.mp (Nat.le_zero.mp hlength)
    exact hfirst
  | succ length ih =>
    intro text s hlength hfirst hothers
    match text with
    | [] => exact hfirst
    | c :: cs =>
      have hcs : cs.length ≤ length := Nat.le_of_succ_le_succ hlength
      rw [splitKeywordFrom] at hfirst hothers
      split at hfirst
      case isFalse hcut =>
        rw [if_neg hcut] at hothers
        exact ih (s := s.step c) hcs hfirst hothers
      case isTrue hcut =>
        rw [if_pos hcut] at hothers
        -- nothing is open where the keyword is cut out
        obtain rfl : s = {} := hfirst
        simp only [Bool.and_eq_true] at hcut
        have hblank : Scan.step {} c = {} :=
          Scan.step_plain Scan.outside_start (isPlain_of_isAsciiBlank hcut.1.2)
        have hsame := (Bool.and_eq_true _ _ ▸ hcut.2 : _ ∧ _).1
        have hword : Balanced (cs.take keyword.length) := .of_isPlain fun d hd =>
          isPlain_of_isNameChar (isNameChar_of_sameIgnoringCase hsame hkey d hd)
        have hskip : splitKeywordFrom keyword {} _ (_ ++ _) = _ :=
          splitKeywordFrom_skip (cs.take keyword.length) (cs.drop keyword.length) {}
        rw [List.take_append_drop, length_of_sameIgnoringCase hsame, hword.run_eq
          Scan.outside_start] at hskip
        rw [hblank, hskip] at hothers
        have hrest := ih (s := {}) (by rw [List.length_drop]; omega)
          (hothers _ (List.mem_cons_self ..)) fun p hp => hothers p (List.mem_cons_of_mem _ hp)
        rw [Scan.run_cons, hblank, ← List.take_append_drop keyword.length cs]
        exact hword.append hrest

/-- **A text is balanced if the pieces between its keywords are.** -/
theorem Balanced.of_splitKeyword (keyword : String) (hkey : IsKeyword keyword.toList)
    {text : List Char} (h : ∀ p ∈ (splitKeyword keyword text).toList, Balanced p) :
    Balanced text :=
  run_of_splitKeywordFrom hkey text.length (Nat.le_refl _) (h _ (List.mem_cons_self ..))
    fun p hp => h p (List.mem_cons_of_mem _ hp)

/-! ### Groups -/

/-- No bracket is counted where a literal opens or goes on. -/
theorem Scan.depth_step_of_quoted {s : Scan} {c : Char} (h : (s.step c).quoted = true) :
    (s.step c).depth = s.depth := by
  unfold Scan.step at h ⊢
  split_ifs at h ⊢ <;> simp_all

/-- A group that is open ends where the scan comes back to the top level. -/
theorem run_of_closeGroup (text : List Char) : ∀ {s : Scan} {inside rest : List Char},
    s.EscapesInside → s.underflow = false → 0 < s.depth →
      closeGroup s text = some (inside, rest) →
        ∃ group, text = group ++ rest ∧ s.run group = {} := by
  induction text with
  | nil => exact fun _ _ _ h => by cases h
  | cons c cs ih =>
    intro s inside rest hescapes hunder hdepth h
    have hunder' : (s.step c).underflow = false := by
      unfold Scan.step
      split_ifs <;> simp_all
    rw [closeGroup] at h
    split at h
    case isTrue hback =>
      obtain ⟨-, rfl⟩ := Prod.mk.inj (Option.some.inj h)
      refine ⟨[c], rfl, ?_⟩
      have hstep : s.step c = {} := by
        have hescapes' := hescapes.step c
        simp only [Bool.and_eq_true, beq_iff_eq, Bool.not_eq_true'] at hback
        generalize s.step c = t at *
        obtain ⟨depth, quoted, escaped, underflow⟩ := t
        simp_all [Scan.EscapesInside]
      exact hstep
    case isFalse hback =>
      obtain ⟨⟨inside', rest'⟩, hrest, heq⟩ := Option.map_eq_some_iff.mp h
      obtain ⟨-, rfl⟩ := Prod.mk.inj heq
      have hdepth' : 0 < (s.step c).depth := by
        by_contra hzero
        have hquoted : (s.step c).quoted = true := by simp_all
        rw [Scan.depth_step_of_quoted hquoted] at hzero
        exact hzero hdepth
      obtain ⟨group, rfl, hrun⟩ := ih (hescapes.step c) hunder' hdepth' hrest
      exact ⟨c :: group, rfl, hrun⟩

/-- A text that is one group is balanced. -/
theorem Balanced.of_unwrapGroup {text inside : List Char}
    (h : unwrapGroup '(' text = some inside) : Balanced text := by
  unfold unwrapGroup at h
  split at h
  case isFalse => cases h
  case isTrue hhead =>
    obtain ⟨cs, rfl⟩ := List.head?_eq_some_iff.mp (beq_iff_eq.mp hhead)
    split at h
    case h_2 => cases h
    case h_1 inner hsplit =>
      obtain ⟨group, rfl, hrun⟩ := run_of_closeGroup cs (s := Scan.step {} '(')
        (by simp [Scan.step, Scan.EscapesInside]) rfl (Nat.succ_pos 0) hsplit
      rw [Balanced, List.append_nil]
      exact hrun

/-! ### Atoms -/

theorem mem_splitOn (sep : Char) {c : Char} {text : List Char} (h : c ∈ text) :
    c = sep ∨ ∃ p ∈ (splitOn sep text).toList, c ∈ p := by
  induction text with
  | nil => cases h
  | cons d ds ih =>
    rw [splitOn]
    by_cases hsep : (d == sep) = true
    · rw [if_pos hsep]
      rcases List.mem_cons.mp h with rfl | h
      · exact .inl (beq_iff_eq.mp hsep)
      · rcases ih h with heq | ⟨p, hp, hc⟩
        · exact .inl heq
        · exact .inr ⟨p, List.mem_cons_of_mem _ hp, hc⟩
    · rw [if_neg hsep]
      rcases List.mem_cons.mp h with rfl | h
      · exact .inr ⟨_, List.mem_cons_self .., List.mem_cons_self ..⟩
      · rcases ih h with heq | ⟨p, hp, hc⟩
        · exact .inl heq
        rcases List.mem_cons.mp hp with rfl | hp
        · exact .inr ⟨_, List.mem_cons_self .., List.mem_cons_of_mem _ hc⟩
        · exact .inr ⟨p, List.mem_cons_of_mem _ hp, hc⟩

/-- The columns of an atom are names and commas behind a colon. -/
theorem exists_of_readColumns {text rest : List Char} {columns : Option (List String)}
    (h : readColumns text = .ok (columns, rest)) :
    ∃ front, text = front ++ rest ∧ ∀ c ∈ front, isPlain c = true := by
  unfold readColumns at h
  split at h
  · rename_i text
    dsimp only at h
    split at h
    · rename_i hall
      obtain ⟨-, rfl⟩ := Prod.mk.inj (Except.ok.inj h)
      refine ⟨':' :: text.takeWhile fun c => !(isBlank c || c == '('), ?_, ?_⟩
      · rw [List.cons_append, List.takeWhile_append_dropWhile]
      · refine List.forall_mem_cons.mpr ⟨rfl, fun c hc => ?_⟩
        rcases mem_splitOn ',' hc with rfl | ⟨p, hp, hc⟩
        · rfl
        · exact isPlain_of_isNameChar ((isName_iff.mp (List.all_eq_true.mp hall p hp)).2 c hc)
    · cases h
  · obtain ⟨-, rfl⟩ := Prod.mk.inj (Except.ok.inj h)
    exact ⟨[], rfl, fun _ hc => absurd hc List.not_mem_nil⟩

theorem Balanced.of_readColumns {text rest : List Char} {columns : Option (List String)}
    (h : readColumns text = .ok (columns, rest)) (hrest : Balanced rest) : Balanced text := by
  obtain ⟨front, rfl, hfront⟩ := exists_of_readColumns h
  exact (Balanced.of_isPlain hfront).append hrest

variable {catalog : Catalog}

theorem balanced_of_readRelation {direction : Direction} {source text whole : List Char}
    {columns : Option (List String)} {a : Atom}
    (h : readRelation catalog direction source columns text whole = .ok a) : Balanced text := by
  rw [readRelation] at h
  split at h
  · cases h
  dsimp only at h
  split at h
  · cases h
  rename_i hname
  simp only [Bool.not_eq_true, Bool.not_eq_false'] at hname
  exact .of_trim (.of_isPlain fun c hc => isPlain_of_isNameChar ((isName_iff.mp hname).2 c hc))

theorem balanced_of_readAtom {text : List Char} {a : Atom} (h : readAtom catalog text = .ok a) :
    Balanced text := by
  rw [readAtom] at h
  split at h
  · cases h
  rename_i rest hwhere
  dsimp only at h
  split at h
  · cases h
  obtain ⟨_, -, h⟩ := except_bind_eq_ok.mp h
  obtain ⟨⟨columns, behind⟩, hcolumns, h⟩ := except_bind_eq_ok.mp h
  dsimp only at h
  have hforward : Balanced ['-', '>'] := .of_isPlain (by decide)
  have hbackward : Balanced ['<', '-'] := .of_isPlain (by decide)
  have hbehind : Balanced (trim behind) := by
    split at h
    · rename_i target heq
      rw [heq]
      exact hforward.append (balanced_of_readRelation h)
    · rename_i target heq
      rw [heq]
      exact hbackward.append (balanced_of_readRelation h)
    · split at h
      · cases h
      · rename_i hgroup
        exact .of_unwrapGroup hgroup
  refine .of_stripKeyword (by decide) hwhere ?_
  rw [← takeName_append rest]
  refine Balanced.append (.of_isPlain fun c hc => isPlain_of_isNameChar ?_)
    (.of_readColumns hcolumns hbehind.of_trim)
  exact List.all_eq_true.mp List.all_takeWhile c hc

/-! ### Expressions -/

theorem exists_of_foldlM {read : List Char → Except Error Expression}
    {join : Expression → Expression → Expression} {pieces : List (List Char)}
    {first e : Expression}
    (h : pieces.foldlM (fun e t => do return join e (← read t)) first = .ok e) :
    ∀ t ∈ pieces, ∃ operand, read t = .ok operand := by
  induction pieces generalizing first with
  | nil => exact fun _ ht => by cases ht
  | cons t pieces ih =>
    rw [List.foldlM_cons] at h
    obtain ⟨joined, hjoined, h⟩ := except_bind_eq_ok.mp h
    obtain ⟨operand, hoperand, -⟩ := except_bind_eq_ok.mp hjoined
    intro u hu
    rcases List.mem_cons.mp hu with rfl | hu
    · exact ⟨operand, hoperand⟩
    · exact ih h u hu

/-- A chain is read from pieces that are all read. -/
theorem exists_of_readPieces {read : List Char → Except Error Expression}
    {join : Expression → Expression → Expression} {p : Pieces} {e : Expression}
    (h : readPieces read join p = .ok e) : ∀ t ∈ p.toList, ∃ operand, read t = .ok operand := by
  obtain ⟨first, hfirst, h⟩ := except_bind_eq_ok.mp h
  intro t ht
  rcases List.mem_cons.mp ht with rfl | ht
  · exact ⟨first, hfirst⟩
  · exact exists_of_foldlM h t ht

/-- Whatever is read as an expression from texts shorter than this is balanced. -/
def ReadsBalanced (catalog : Catalog) (length : Nat) : Prop :=
  ∀ text : List Char, text.length < length → ∀ e, readExpression catalog text = .ok e →
    Balanced text

namespace ReadsBalanced

variable {length : Nat} {text : List Char} {e : Expression}

theorem negation (hshorter : ReadsBalanced catalog length) (hlength : text.length ≤ length)
    {rest : List Char} (hnot : stripKeyword "NOT" (trim text) = some rest)
    (h : readExpression catalog rest = .ok e) : Balanced text := by
  have hrest := length_lt_of_stripKeyword_not hnot
  exact .of_trim (.of_stripKeyword (by decide) hnot
    (hshorter rest (Nat.lt_of_lt_of_le hrest hlength) e h))

theorem operand (hshorter : ReadsBalanced catalog length) (hlength : text.length ≤ length)
    (h : readOperand catalog text = .ok e) : Balanced text := by
  rw [readOperand] at h
  split at h
  · cases h
  split at h
  · rename_i rest hnot
    obtain ⟨inner, hinner, -⟩ := except_bind_eq_ok.mp h
    exact hshorter.negation hlength hnot hinner
  split at h
  · rename_i inner hgroup
    exact .of_trim (.of_unwrapGroup hgroup)
  · obtain ⟨a, ha, -⟩ := except_bind_eq_ok.mp h
    exact .of_trim (balanced_of_readAtom ha)

theorem conjunction (hshorter : ReadsBalanced catalog length) (hlength : text.length ≤ length)
    (h : readConjunction catalog text = .ok e) : Balanced text := by
  rw [readConjunction_eq] at h
  refine .of_splitKeyword "AND" (by decide) fun p hp => ?_
  obtain ⟨operand, hoperand⟩ := exists_of_readPieces h p hp
  exact hshorter.operand (Nat.le_trans (length_le_of_mem_splitKeyword hp) hlength) hoperand

theorem disjunction (hshorter : ReadsBalanced catalog length) (hlength : text.length ≤ length)
    (h : readDisjunction catalog text = .ok e) : Balanced text := by
  refine .of_splitKeyword "OR" (by decide) fun p hp => ?_
  obtain ⟨operand, hoperand⟩ := exists_of_readPieces h p hp
  exact hshorter.conjunction (Nat.le_trans (length_le_of_mem_splitKeyword hp) hlength) hoperand

end ReadsBalanced

theorem readsBalanced (length : Nat) : ReadsBalanced catalog length := by
  induction length with
  | zero => exact fun _ hlength => absurd hlength (Nat.not_lt_zero _)
  | succ length hshorter =>
    intro text hlength e h
    have hlength : text.length ≤ length := Nat.lt_succ_iff.mp hlength
    by_cases hne : trim text = []
    · rw [readExpression, hne] at h
      cases h
    cases hnot : stripKeyword "NOT" (trim text) with
    | some rest =>
      rw [readExpression_not hne hnot] at h
      obtain ⟨inner, hinner, -⟩ := except_bind_eq_ok.mp h
      exact hshorter.negation hlength hnot hinner
    | none =>
      rw [readExpression_eq hne hnot] at h
      exact .of_trim (hshorter.disjunction (Nat.le_trans (length_trim_le text) hlength) h)

/-- **Whatever is read as an expression is balanced**, by induction on the length of its
text. -/
theorem balanced_of_readExpression {text : List Char} {e : Expression}
    (h : readExpression catalog text = .ok e) : Balanced text :=
  readsBalanced (text.length + 1) text (Nat.lt_succ_self _) e h

/-! ### What an expression begins with -/

/-- A parenthesis, or the first letter of the keyword of a negation or of an atom. -/
def BeginsExpression (text : List Char) : Prop :=
  ∃ c rest, text = c :: rest ∧ (c = '(' ∨ c.toLower = 'n' ∨ c.toLower = 'w')

theorem toLower_eq_of_sameIgnoringCase {c d : Char} {text word : List Char}
    (hd : (lowerAscii word).head? = some d) (h : sameIgnoringCase (c :: text) word = true) :
    c.toLower = d := by
  rw [← sameIgnoringCase_iff.mp h] at hd
  exact Option.some.inj hd

/-- A text that begins with a keyword has its first letter. -/
theorem toLower_eq_of_stripKeyword {keyword : String} {c d : Char} {text rest : List Char}
    (hd : (lowerAscii keyword.toList).head? = some d)
    (h : stripKeyword keyword (c :: text) = some rest) : c.toLower = d := by
  obtain ⟨word, blanks, htext, hsame, -⟩ := exists_of_stripKeyword h
  match word with
  | [] =>
    rw [← sameIgnoringCase_iff.mp hsame] at hd
    cases hd
  | w :: ws =>
    rw [(List.cons.inj htext).1]
    exact toLower_eq_of_sameIgnoringCase hd hsame

theorem head_splitKeyword (keyword : String) {c : Char} (hc : isAsciiBlank c = false)
    (text : List Char) : ∃ rest, (splitKeyword keyword (c :: text)).1 = c :: rest := by
  have hcut : (Scan.atTop {} && isAsciiBlank c && startsKeyword keyword.toList text) = false := by
    rw [hc, Bool.and_false, Bool.false_and]
  rw [splitKeyword, splitKeywordFrom, hcut, if_neg Bool.false_ne_true]
  exact ⟨_, rfl⟩

theorem begins_of_readOperand {c : Char} (hc : isBlank c = false) {text : List Char}
    {e : Expression} (h : readOperand catalog (c :: text) = .ok e) :
    c = '(' ∨ c.toLower = 'n' ∨ c.toLower = 'w' := by
  have htrim : trim (c :: text) = c :: trimEnd text := by
    rw [trim, trimStart_of_startsSolid ⟨c, text, rfl, hc⟩, ← List.nil_append (c :: text),
      trimEnd_append_cons hc, List.nil_append]
  rw [readOperand, htrim] at h
  split at h
  · cases h
  split at h
  · rename_i rest hnot
    exact .inr (.inl (toLower_eq_of_stripKeyword rfl hnot))
  split at h
  · rename_i inner hgroup
    refine .inl (Decidable.byContradiction fun hne => ?_)
    rw [unwrapGroup_of_ne hne] at hgroup
    cases hgroup
  · obtain ⟨a, ha, -⟩ := except_bind_eq_ok.mp h
    rw [readAtom] at ha
    split at ha
    · cases ha
    rename_i rest hwhere
    exact .inr (.inr (toLower_eq_of_stripKeyword rfl hwhere))

/-- **An expression begins** with a parenthesis or with one of two keywords. -/
theorem begins_of_readExpression {text : List Char} {e : Expression}
    (h : readExpression catalog text = .ok e) : BeginsExpression (trim text) := by
  have hne : trim text ≠ [] := fun hnil => by
    rw [readExpression, hnil] at h
    cases h
  obtain ⟨c, rest, htext, hc⟩ := (solid_trim hne).1
  refine ⟨c, rest, htext, ?_⟩
  cases hnot : stripKeyword "NOT" (trim text) with
  | some behind =>
    rw [htext] at hnot
    exact .inr (.inl (toLower_eq_of_stripKeyword rfl hnot))
  | none =>
    -- the first operand begins where the text does
    have hascii : isAsciiBlank c = false := Bool.eq_false_iff.mpr fun hblank => by
      rw [isBlank_of_isAsciiBlank hblank] at hc
      cases hc
    rw [readExpression_eq hne hnot, htext] at h
    obtain ⟨first, hfirst⟩ := exists_of_readPieces h _ (List.mem_cons_self ..)
    obtain ⟨others, hothers⟩ := head_splitKeyword "OR" hascii rest
    rw [hothers, readConjunction_eq] at hfirst
    obtain ⟨operand, hoperand⟩ := exists_of_readPieces hfirst _ (List.mem_cons_self ..)
    obtain ⟨others', hothers'⟩ := head_splitKeyword "AND" hascii others
    rw [hothers'] at hoperand
    exact begins_of_readOperand hc hoperand

namespace BeginsExpression

variable {text : List Char}

/-- No projection begins like this. -/
theorem stripKeyword_as (h : BeginsExpression text) : stripKeyword "AS" text = none := by
  obtain ⟨c, rest, rfl, hc⟩ := h
  cases has : stripKeyword "AS" (c :: rest) with
  | none => rfl
  | some behind =>
    have hletter : c.toLower = 'a' := toLower_eq_of_stripKeyword rfl has
    rcases hc with rfl | hc | hc
    · exact absurd hletter (by decide)
    · exact absurd (hletter.symm.trans hc) (by decide)
    · exact absurd (hletter.symm.trans hc) (by decide)

/-- No aggregation begins like this. -/
theorem splitAggregation (h : BeginsExpression text) : splitAggregation text = none := by
  obtain ⟨c, rest, rfl, hc⟩ := h
  have hword : Aggregation.ofKeyword? (takeName (c :: rest)).1 = none := by
    cases hword : Aggregation.ofKeyword? (takeName (c :: rest)).1 with
    | none => rfl
    | some a =>
      have hfound : sameIgnoringCase a.keyword.toList (takeName (c :: rest)).1 = true := by
        simpa using List.find?_some hword
      have hsame : sameIgnoringCase (takeName (c :: rest)).1 a.keyword.toList = true :=
        sameIgnoringCase_iff.mpr (sameIgnoringCase_iff.mp hfound).symm
      by_cases hname : isNameChar c = true
      · rw [takeName, List.takeWhile_cons_of_pos hname] at hsame
        have hne : c ≠ '(' := ne_of_isNameChar hname rfl
        have hletter := hc.resolve_left hne
        cases a <;> rw [toLower_eq_of_sameIgnoringCase rfl hsame] at hletter <;>
          exact absurd hletter (by decide)
      · rw [takeName, List.takeWhile_cons_of_neg hname] at hsame
        cases a <;> cases hsame
  rw [Grammar.splitAggregation]
  simp only [hword]

end BeginsExpression

end Grammar

end TableQuery
