import TableQuery.Proofs.Grammar.Literals
import TableQuery.Proofs.Grammar.Segments

/-!
# Where a literal ends

Two automata know about string literals. A `TableQuery.Grammar.Scan` passes over them,
so that nothing inside one separates anything, and `TableQuery.Grammar.readQuoted` takes
the content of one. If they disagreed about the end of a literal, part of its content
would be read as query text.

Behind the opening quote both have the same thing to remember, whether a backslash was
just read, and each character does the same to either: it is escaped, it escapes the next
one, it closes the literal, or it is content. A scan that is outside of literals at the
quote is therefore back where it was exactly behind the characters that are read
(`TableQuery.Grammar.Scan.leaves_of_readQuotedTail?`), and it never comes out of a literal
that cannot be read (`TableQuery.Grammar.Scan.quoted_of_readQuotedTail?`).
-/

namespace TableQuery

namespace Grammar

namespace Scan

/-! ### One character of a literal -/

/-- The scan inside of a literal; `escaped` says that a backslash was just read. -/
def inside (s : Scan) (escaped : Bool) : Scan :=
  { s with quoted := true, escaped := escaped }

/-- A character that closes the literal. -/
def closes (escaped : Bool) (c : Char) : Bool :=
  !escaped && c == '"'

/-- A character that escapes the next one. -/
def escapes (escaped : Bool) (c : Char) : Bool :=
  !escaped && c == '\\'

@[simp] theorem quoted_inside (s : Scan) (escaped : Bool) : (s.inside escaped).quoted = true := rfl

variable {s : Scan} {escaped : Bool}

theorem step_quote_eq_inside (hs : s.Outside) : s.step '"' = s.inside false := by
  rw [step_quote hs, inside, ← hs.2]

theorem step_inside_of_closes (hs : s.Outside) {c : Char} (h : closes escaped c = true) :
    (s.inside escaped).step c = s := by
  simp only [closes, Bool.and_eq_true, Bool.not_eq_true', beq_iff_eq] at h
  obtain ⟨rfl, rfl⟩ := h
  rw [← step_quote_eq_inside hs, step_quote hs]
  exact step_quote_quoted hs

theorem step_inside {c : Char} (h : closes escaped c = false) :
    (s.inside escaped).step c = s.inside (escapes escaped c) := by
  cases escaped with
  | true => rfl
  | false =>
    have hc : (c == '"') = false := by simpa [closes] using h
    by_cases hslash : c = '\\' <;> simp [step, inside, escapes, hc, hslash]

end Scan

/-- Reading a literal makes of each character what a scan makes of it. -/
theorem readQuotedTail?_cons (escaped : Bool) (c : Char) (cs : List Char) :
    readQuotedTail? escaped (c :: cs) =
      if Scan.closes escaped c then some ([], cs)
      else (readQuotedTail? (Scan.escapes escaped c) cs).map fun r =>
        (if Scan.escapes escaped c then r.1 else c :: r.1, r.2) := by
  cases escaped with
  | true => rfl
  | false =>
    by_cases hslash : c = '\\'
    · subst hslash
      simp [readQuotedTail?, Scan.closes, Scan.escapes]
    · have hslash : (c == '\\') = false := beq_eq_false_iff_ne.mpr hslash
      simp [readQuotedTail?, Scan.closes, Scan.escapes, hslash]

/-! ### A whole literal -/

namespace Scan

/-- A scan that enters a literal with the first character of a text leaves it with the last one,
and not before. -/
structure Leaves (s : Scan) (literal : List Char) : Prop where
  nonempty : literal ≠ []
  outside : (s.run literal).quoted = false
  inside : ∀ front back, literal = front ++ back → front ≠ [] → back ≠ [] →
    (s.run front).quoted = true

/-- A literal is left once. -/
theorem Leaves.eq_of_append {s : Scan} {literal literal' rest rest' : List Char}
    (h : s.Leaves literal) (h' : s.Leaves literal') (heq : literal ++ rest = literal' ++ rest') :
    literal = literal' ∧ rest = rest' := by
  -- of two that begin alike the longer one would still be inside where the shorter one is left
  have hshort : ∀ {a b more : List Char}, s.Leaves a → s.Leaves b → b = a ++ more → more = [] := by
    intro a b more ha hb hab
    by_contra hmore
    have hquoted := hb.inside a more hab ha.nonempty hmore
    rw [ha.outside] at hquoted
    cases hquoted
  rcases List.append_eq_append_iff.mp heq with ⟨more, hmore, hrest⟩ | ⟨more, hmore, hrest⟩
  · obtain rfl := hshort h h' hmore
    exact ⟨by simpa using hmore.symm, by simpa using hrest⟩
  · obtain rfl := hshort h' h hmore
    exact ⟨by simpa using hmore, by simpa using hrest.symm⟩

variable {s : Scan}

/-- **A literal that is read is left** behind the characters that were read, and the scan is then
where it was in front of it. -/
theorem leaves_of_readQuotedTail? (hs : s.Outside) {text : List Char} :
    ∀ {escaped : Bool} {content rest : List Char},
      readQuotedTail? escaped text = some (content, rest) →
        ∃ literal, text = literal ++ rest ∧ (s.inside escaped).run literal = s ∧
          ∀ front back, literal = front ++ back → back ≠ [] →
            ((s.inside escaped).run front).quoted = true := by
  induction text with
  | nil => intro _ _ _ h; cases h
  | cons c cs ih =>
    intro escaped content rest h
    rw [readQuotedTail?_cons] at h
    cases hcloses : closes escaped c with
    | true =>
      rw [hcloses, if_pos rfl, Option.some.injEq, Prod.mk.injEq] at h
      obtain ⟨-, rfl⟩ := h
      refine ⟨[c], rfl, step_inside_of_closes hs hcloses, fun front back hsplit hback => ?_⟩
      -- only the empty text is in front of a single character
      have hfront : front = [] := by
        rcases List.append_eq_singleton_iff.mp hsplit.symm with ⟨hfront, -⟩ | ⟨-, hnil⟩
        · exact hfront
        · exact absurd hnil hback
      rw [hfront, run_nil, quoted_inside]
    | false =>
      rw [hcloses, if_neg Bool.false_ne_true] at h
      obtain ⟨⟨content', rest'⟩, hr, heq⟩ := Option.map_eq_some_iff.mp h
      obtain rfl : rest' = rest := congrArg Prod.snd heq
      obtain ⟨literal, rfl, hrun, hinside⟩ := ih hr
      refine ⟨c :: literal, rfl, ?_, fun front back hsplit hback => ?_⟩
      · rw [run_cons, step_inside hcloses, hrun]
      · cases front with
        | nil => rfl
        | cons d front =>
          obtain ⟨rfl, htail⟩ := List.cons.inj hsplit
          rw [run_cons, step_inside hcloses]
          exact hinside front back htail hback

/-- **A literal that cannot be read is not left.** -/
theorem quoted_of_readQuotedTail? {text : List Char} : ∀ {escaped : Bool},
    readQuotedTail? escaped text = none → ∀ front back, text = front ++ back →
      ((s.inside escaped).run front).quoted = true := by
  induction text with
  | nil =>
    intro escaped _ front back hsplit
    rw [(List.append_eq_nil_iff.mp hsplit.symm).1, run_nil, quoted_inside]
  | cons c cs ih =>
    intro escaped h front back hsplit
    rw [readQuotedTail?_cons] at h
    cases hcloses : closes escaped c with
    | true => rw [hcloses, if_pos rfl] at h; cases h
    | false =>
      rw [hcloses, if_neg Bool.false_ne_true, Option.map_eq_none_iff] at h
      cases front with
      | nil => rfl
      | cons d front =>
        obtain ⟨rfl, htail⟩ := List.cons.inj hsplit
        rw [run_cons, step_inside hcloses]
        exact ih h front back htail

end Scan

variable {s : Scan}

/-- What is read from a text that begins with a quote. -/
theorem readQuoted_eq_ok_iff {cs : List Char} {r : List Char × List Char} :
    readQuoted ('"' :: cs) = .ok r ↔ readQuotedTail? false cs = some r := by
  rw [readQuoted]
  cases readQuotedTail? false cs with
  | none => simp [fail]
  | some r' => simp

theorem leaves_of_readQuoted (hs : s.Outside) {cs content rest : List Char}
    (h : readQuoted ('"' :: cs) = .ok (content, rest)) :
    ∃ literal, '"' :: cs = literal ++ rest ∧ s.run literal = s ∧ s.Leaves literal := by
  obtain ⟨literal, rfl, hrun, hinside⟩ :=
    Scan.leaves_of_readQuotedTail? hs (readQuoted_eq_ok_iff.mp h)
  have hwhole : s.run ('"' :: literal) = s := by
    rw [Scan.run_cons, Scan.step_quote_eq_inside hs, hrun]
  refine ⟨'"' :: literal, rfl, hwhole, List.cons_ne_nil _ _, by rw [hwhole, hs.1], ?_⟩
  intro front back hsplit hfront hback
  obtain ⟨c, front, rfl⟩ := List.exists_cons_of_ne_nil hfront
  obtain ⟨rfl, htail⟩ := List.cons.inj hsplit
  rw [Scan.run_cons, Scan.step_quote_eq_inside hs]
  exact hinside front back htail hback

/-- Where no literal can be read, no scan comes out of the text behind the quote. -/
theorem quoted_of_readQuoted (hs : s.Outside) {cs : List Char}
    (h : ∀ r, readQuoted ('"' :: cs) ≠ .ok r) {front back : List Char}
    (hsplit : '"' :: cs = front ++ back) (hfront : front ≠ []) : (s.run front).quoted = true := by
  have hnone : readQuotedTail? false cs = none :=
    Option.eq_none_iff_forall_ne_some.mpr fun r hr => h r (readQuoted_eq_ok_iff.mpr hr)
  obtain ⟨c, front, rfl⟩ := List.exists_cons_of_ne_nil hfront
  obtain ⟨rfl, htail⟩ := List.cons.inj hsplit
  rw [Scan.run_cons, Scan.step_quote_eq_inside hs]
  exact Scan.quoted_of_readQuotedTail? hnone front back htail

/-- **A literal is read where a scan leaves it**, and nowhere else. -/
theorem readQuoted_iff_leaves (hs : s.Outside) {cs rest : List Char} :
    (∃ content, readQuoted ('"' :: cs) = .ok (content, rest)) ↔
      ∃ literal, '"' :: cs = literal ++ rest ∧ s.Leaves literal := by
  constructor
  · rintro ⟨content, h⟩
    obtain ⟨literal, hsplit, -, hleaves⟩ := leaves_of_readQuoted hs h
    exact ⟨literal, hsplit, hleaves⟩
  · rintro ⟨literal, hsplit, hleaves⟩
    by_cases hread : ∃ r, readQuoted ('"' :: cs) = .ok r
    · obtain ⟨⟨content, rest'⟩, hread⟩ := hread
      obtain ⟨literal', hsplit', -, hleaves'⟩ := leaves_of_readQuoted hs hread
      obtain ⟨-, rfl⟩ := hleaves.eq_of_append hleaves' (hsplit ▸ hsplit')
      exact ⟨content, hread⟩
    · have hquoted := quoted_of_readQuoted hs (not_exists.mp hread) hsplit hleaves.nonempty
      rw [hleaves.outside] at hquoted
      cases hquoted

/-- Behind the opening quote of a written literal nothing stands at the top level. -/
theorem top_tail_writeQuoted (hs : s.Outside) (text : List Char) :
    (s.step '"').top (writeQuoted text).tail = [] := by
  have htail : (writeQuoted text).tail = escapeQuoted text ++ ['"'] := rfl
  rw [htail, Scan.step_quote hs, Scan.top_append, (Scan.run_escapeQuoted hs text).1,
    (Scan.run_escapeQuoted hs text).2]
  rfl

/-- Outside of literals no scan has an escape pending. -/
theorem outside_of_run {before : List Char} (h : (Scan.run {} before).quoted = false) :
    (Scan.run {} before).Outside := by
  have hescapes : (Scan.run {} before).EscapesInside := .run before (by simp [Scan.EscapesInside])
  refine ⟨h, Bool.eq_false_iff.mpr fun hescaped => ?_⟩
  rw [hescapes hescaped] at h
  cases h

/-- A literal can be read if a scan comes out of quotes somewhere behind the opening one. -/
theorem readQuoted_isOk_iff (hs : s.Outside) {cs : List Char} :
    (∃ r, readQuoted ('"' :: cs) = .ok r) ↔
      ∃ front back, '"' :: cs = front ++ back ∧ front ≠ [] ∧ (s.run front).quoted = false := by
  constructor
  · rintro ⟨⟨content, rest⟩, h⟩
    obtain ⟨literal, hsplit, -, hleaves⟩ := leaves_of_readQuoted hs h
    exact ⟨literal, rest, hsplit, hleaves.nonempty, hleaves.outside⟩
  · rintro ⟨front, back, hsplit, hfront, houtside⟩
    by_contra hnone
    rw [quoted_of_readQuoted hs (not_exists.mp hnone) hsplit hfront] at houtside
    cases houtside

/-- **Scans and readers agree on literals.** A written literal is read back, whatever follows it.
A scan that is outside of literals, at any depth, comes back to where it was behind a written
literal, and shows nothing of it but its opening quote. A text that begins with a quote, whether it
was written so or not, can be read if and only if a scan comes out of quotes in it, and what is
left of it is what stands behind the place where the scan does. -/
theorem literals_end_alike :
    (∀ text rest, readQuoted (writeQuoted text ++ rest) = .ok (text, rest)) ∧
    (∀ before, (Scan.run {} before).quoted = false → (Scan.run {} before).Outside) ∧
    ∀ s : Scan, s.Outside →
      (∀ text, s.run (writeQuoted text) = s ∧ (s.step '"').top (writeQuoted text).tail = []) ∧
      ∀ cs,
        ((∃ r, readQuoted ('"' :: cs) = .ok r) ↔
          ∃ front back, '"' :: cs = front ++ back ∧ front ≠ [] ∧ (s.run front).quoted = false) ∧
        ∀ rest, (∃ content, readQuoted ('"' :: cs) = .ok (content, rest)) ↔
          ∃ literal, '"' :: cs = literal ++ rest ∧ s.Leaves literal :=
  ⟨readQuoted_writeQuoted, fun _ => outside_of_run, fun _ hs =>
    ⟨fun text => ⟨Scan.run_writeQuoted hs text, top_tail_writeQuoted hs text⟩,
      fun _ => ⟨readQuoted_isOk_iff hs, fun _ => readQuoted_iff_leaves hs⟩⟩⟩

/-- Within brackets, a literal of a quote, a backslash and a semicolon. -/
theorem literals_end_alike_brackets :
    let before := "[Where posts:title (".toList
    let s := Scan.run {} before
    let text := ['"', '\\', ';', 'é']
    s = { depth := 2 } ∧ s.run (writeQuoted text) = s ∧
      readQuoted (writeQuoted text ++ [')', ']']) = .ok (text, [')', ']']) ∧
      (∃ literal, writeQuoted text ++ [')', ']'] = literal ++ [')', ']'] ∧ s.Leaves literal) := by
  intro before s text
  have hdepth : s = { depth := 2 } := by decide
  obtain ⟨hread, houtside, hscan⟩ := literals_end_alike
  obtain ⟨hwritten, hany⟩ := hscan s (houtside before (by decide))
  exact ⟨hdepth, (hwritten text).1, hread _ _, ((hany _).2 _).mp ⟨text, hread text [')', ']']⟩⟩

end Grammar

end TableQuery
