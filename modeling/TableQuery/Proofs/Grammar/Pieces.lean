import TableQuery.Proofs.Grammar.Balance
import TableQuery.Proofs.Grammar.Quoting

/-!
# Pieces of balanced text

Only the text as a whole is searched for open brackets and literals. It is cut many times
after that, and none of the pieces is searched again. It need not be done: **a cut of
balanced text is balanced**. Where a cut is made, at a character, in front of a bracket,
at a keyword or at two dots, the scan is at the top level, and in balanced text this
leaves only the state in which it began (`TableQuery.Grammar.Scan.eq_start`). So what is
behind the cut is scanned as if it stood alone, and what is in front of it is closed.

A group is the one thing that is cut where brackets are open. Its inside is scanned one
level deeper, and it ends with the first bracket that its inside has not opened
(`TableQuery.Grammar.balanced_of_closeGroup`). That there is such a bracket is what
balance says of a text that begins with an opening one
(`TableQuery.Grammar.Balanced.exists_splitGroup`).
-/

namespace TableQuery

namespace Grammar

open Text

/-! ### Where a cut is made -/

/-- **At the top level of balanced text** a scan is where it began. -/
theorem Scan.eq_start {s : Scan} {text : List Char} (hescapes : s.EscapesInside)
    (hrun : s.run text = {}) (htop : s.atTop = true) : s = {} := by
  have hunder : s.underflow = false := Bool.eq_false_iff.mpr fun hunder => by
    have := Scan.underflow_run text hunder
    rw [hrun] at this
    cases this
  obtain ⟨depth, quoted, escaped, underflow⟩ := s
  cases escaped <;> simp_all [Scan.atTop, Scan.EscapesInside]

theorem Scan.escapesInside_start : Scan.EscapesInside {} := fun h => by cases h

/-- A character that opens and closes nothing neither begins a literal nor ends one. -/
theorem Scan.quoted_step_plain {c : Char} (hc : isPlain c = true) (s : Scan) :
    (s.step c).quoted = s.quoted := by
  simp only [isPlain, Bool.not_eq_true', Bool.or_eq_false_iff] at hc
  obtain ⟨⟨⟨⟨hquote, hparen⟩, hsquare⟩, hparen'⟩, hsquare'⟩ := hc
  unfold step
  split_ifs <;> simp_all

theorem Scan.quoted_run_plain {text : List Char} (h : ∀ c ∈ text, isPlain c = true) :
    ∀ s : Scan, (s.run text).quoted = s.quoted := by
  induction text with
  | nil => exact fun _ => rfl
  | cons c cs ih =>
    intro s
    obtain ⟨hc, hcs⟩ := List.forall_mem_cons.mp h
    rw [run_cons, ih hcs, quoted_step_plain hc]

/-! ### What is left of balanced text -/

namespace Balanced

variable {a b text : List Char}

theorem of_append (ha : Balanced a) (h : Balanced (a ++ b)) : Balanced b := by
  rw [Balanced, Scan.run_append, ha.run_eq Scan.outside_start] at h
  exact h

/-- Characters that open and close nothing may be dropped in front. -/
theorem drop_plain (h : Balanced (a ++ b)) (ha : ∀ c ∈ a, isPlain c = true) : Balanced b :=
  (of_isPlain ha).of_append h

theorem tail {c : Char} (h : Balanced (c :: text)) (hc : isPlain c = true) : Balanced text :=
  h.drop_plain (a := [c]) (List.forall_mem_singleton.mpr hc)

theorem dropWhile (h : Balanced text) {p : Char → Bool} (hp : ∀ c, p c = true → isPlain c = true) :
    Balanced (text.dropWhile p) := by
  rw [← List.takeWhile_append_dropWhile (p := p) (l := text)] at h
  exact h.drop_plain fun c hc => hp c (List.all_eq_true.mp List.all_takeWhile c hc)

theorem trimStart (h : Balanced text) : Balanced (trimStart text) :=
  h.dropWhile fun _ => isPlain_of_isBlank

theorem takeName (h : Balanced text) : Balanced (takeName text).2 :=
  h.dropWhile fun _ => isPlain_of_isNameChar

theorem trim (h : Balanced text) : Balanced (trim text) := by
  obtain ⟨front, back, htext, hfront, hback⟩ := exists_append_trim text
  rw [htext, List.append_assoc] at h
  have hrest := h.drop_plain fun c hc => isPlain_of_isBlank (hfront c hc)
  have hback : ∀ c ∈ back, isPlain c = true := fun c hc => isPlain_of_isBlank (hback c hc)
  rw [Balanced, Scan.run_append] at hrest
  -- the blanks at the end do not close a literal
  have hend : (Scan.run {} (Text.trim text)).quoted = false := by
    rw [← Scan.quoted_run_plain hback, hrest]
  rwa [(of_isPlain hback).run_eq (outside_of_run hend)] at hrest

theorem stripKeyword {keyword : String} (hkey : IsKeyword keyword.toList) {rest : List Char}
    (h : Balanced text) (hrest : stripKeyword keyword text = some rest) : Balanced rest := by
  obtain ⟨word, blanks, rfl, hsame, hblanks⟩ := exists_of_stripKeyword hrest
  have hword := isNameChar_of_sameIgnoringCase hsame hkey
  refine h.drop_plain fun c hc => ?_
  rcases List.mem_append.mp hc with hc | hc
  · exact isPlain_of_isNameChar (hword c hc)
  · exact isPlain_of_isBlank (hblanks c hc)

end Balanced

/-! ### Cuts -/

theorem pieces_of_splitTopFrom {sep : Char} (hsep : isPlain sep = true) (text : List Char) :
    ∀ {s : Scan}, s.EscapesInside → s.run text = {} →
      s.run (splitTopFrom sep s text).1 = {} ∧
        ∀ p ∈ (splitTopFrom sep s text).2, Balanced p := by
  induction text with
  | nil => exact fun _ hrun => ⟨hrun, fun _ hp => absurd hp List.not_mem_nil⟩
  | cons c cs ih =>
    intro s hescapes hrun
    obtain ⟨hfirst, hothers⟩ := ih (hescapes.step c) hrun
    rw [splitTopFrom]
    split
    case isTrue hcut =>
      simp only [Bool.and_eq_true, beq_iff_eq] at hcut
      obtain rfl := Scan.eq_start hescapes hrun hcut.1
      obtain rfl := hcut.2
      rw [Scan.step_plain Scan.outside_start hsep] at hfirst hothers ⊢
      exact ⟨rfl, List.forall_mem_cons.mpr ⟨hfirst, hothers⟩⟩
    case isFalse => exact ⟨hfirst, hothers⟩

theorem Balanced.splitTop {sep : Char} (hsep : isPlain sep = true) {text : List Char}
    (h : Balanced text) : ∀ p ∈ (splitTop sep text).toList, Balanced p :=
  List.forall_mem_cons.mpr (pieces_of_splitTopFrom hsep text Scan.escapesInside_start h)

theorem pieces_of_splitPartsFrom (text : List Char) :
    ∀ {s : Scan}, s.EscapesInside → s.run text = {} →
      s.run (splitPartsFrom s text).1 = {} ∧
        ∀ p ∈ (splitPartsFrom s text).2, Balanced p := by
  induction text with
  | nil => exact fun _ hrun => ⟨hrun, fun _ hp => absurd hp List.not_mem_nil⟩
  | cons c cs ih =>
    intro s hescapes hrun
    obtain ⟨hfirst, hothers⟩ := ih (hescapes.step c) hrun
    rw [splitPartsFrom]
    split
    case isTrue hcut =>
      simp only [Bool.and_eq_true, beq_iff_eq] at hcut
      obtain rfl := Scan.eq_start hescapes hrun hcut.1
      obtain rfl := hcut.2
      -- the bracket goes with the piece behind the cut
      exact ⟨rfl, List.forall_mem_cons.mpr ⟨hfirst, hothers⟩⟩
    case isFalse => exact ⟨hfirst, hothers⟩

theorem Balanced.splitParts {text : List Char} (h : Balanced text) :
    ∀ p ∈ (splitParts text).2, Balanced p :=
  (pieces_of_splitPartsFrom text Scan.escapesInside_start h).2

/-- A part begins with its bracket. -/
theorem head?_of_mem_splitPartsFrom {p : List Char} (text : List Char) : ∀ {s : Scan},
    p ∈ (splitPartsFrom s text).2 → p.head? = some '[' := by
  induction text with
  | nil => exact fun hp => absurd hp List.not_mem_nil
  | cons c cs ih =>
    intro s hp
    rw [splitPartsFrom] at hp
    split at hp
    case isTrue hcut =>
      rcases List.mem_cons.mp hp with rfl | hp
      · simp only [Bool.and_eq_true, beq_iff_eq] at hcut
        exact congrArg some hcut.2
      · exact ih hp
    case isFalse => exact ih hp

/-- By induction on the length of the text, since behind a keyword the cut goes on after its last
character. -/
theorem pieces_of_splitKeywordFrom {keyword : List Char} (hkey : IsKeyword keyword)
    (length : Nat) : ∀ {text : List Char} {s : Scan}, text.length ≤ length →
      s.EscapesInside → s.run text = {} →
        s.run (splitKeywordFrom keyword s 0 text).1 = {} ∧
          ∀ p ∈ (splitKeywordFrom keyword s 0 text).2, Balanced p := by
  induction length with
  | zero =>
    intro text s hlength _ hrun
    obtain rfl := List.length_eq_zero_iff.mp (Nat.le_zero.mp hlength)
    exact ⟨hrun, fun _ hp => absurd hp List.not_mem_nil⟩
  | succ length ih =>
    intro text s hlength hescapes hrun
    cases text with
    | nil => exact ⟨hrun, fun _ hp => absurd hp List.not_mem_nil⟩
    | cons c cs =>
      have hcs : cs.length ≤ length := Nat.le_of_succ_le_succ hlength
      rw [splitKeywordFrom]
      split
      case isFalse => exact ih hcs (hescapes.step c) hrun
      case isTrue hcut =>
        simp only [Bool.and_eq_true] at hcut
        obtain rfl := Scan.eq_start hescapes hrun hcut.1.1
        have hblank := isPlain_of_isAsciiBlank hcut.1.2
        obtain ⟨hsame, -⟩ := Bool.and_eq_true _ _ ▸ hcut.2
        have hword : ∀ d ∈ cs.take keyword.length, isPlain d = true := fun d hd =>
          isPlain_of_isNameChar (isNameChar_of_sameIgnoringCase hsame hkey d hd)
        have hskip : splitKeywordFrom keyword {} (cs.take keyword.length).length
            (cs.take keyword.length ++ cs.drop keyword.length) =
              splitKeywordFrom keyword (Scan.run {} (cs.take keyword.length)) 0
                (cs.drop keyword.length) :=
          splitKeywordFrom_skip _ _ _
        rw [List.take_append_drop, length_of_sameIgnoringCase hsame,
          (Balanced.of_isPlain hword).run_eq Scan.outside_start] at hskip
        rw [Scan.step_plain Scan.outside_start hblank, hskip]
        -- neither the blank nor the keyword leaves anything open in front of what follows
        have hbehind : Balanced (cs.drop keyword.length) := by
          refine Balanced.drop_plain ?_ hword
          rw [List.take_append_drop]
          exact Balanced.tail hrun hblank
        obtain ⟨hfirst, hothers⟩ := ih (by rw [List.length_drop]; omega)
          Scan.escapesInside_start hbehind
        exact ⟨rfl, List.forall_mem_cons.mpr ⟨hfirst, hothers⟩⟩

theorem Balanced.splitKeyword (keyword : String) (hkey : IsKeyword keyword.toList)
    {text : List Char} (h : Balanced text) :
    ∀ p ∈ (splitKeyword keyword text).toList, Balanced p :=
  List.forall_mem_cons.mpr
    (pieces_of_splitKeywordFrom hkey text.length (Nat.le_refl _) Scan.escapesInside_start h)

theorem bounds_of_splitRangeFrom (text : List Char) : ∀ {s : Scan} {lower upper : List Char},
    s.EscapesInside → s.run text = {} → splitRangeFrom s text = some (lower, upper) →
      s.run lower = {} ∧ Balanced upper := by
  induction text with
  | nil => exact fun _ _ h => by cases h
  | cons c cs ih =>
    intro s lower upper hescapes hrun h
    rw [splitRangeFrom] at h
    split at h
    case isTrue hcut =>
      obtain ⟨rfl, rfl⟩ := Prod.mk.inj (Option.some.inj h)
      simp only [Bool.and_eq_true, beq_iff_eq] at hcut
      obtain ⟨⟨htop, rfl⟩, hdot⟩ := hcut
      obtain rfl := Scan.eq_start hescapes hrun htop
      obtain ⟨cs, rfl⟩ := List.head?_eq_some_iff.mp hdot
      exact ⟨rfl, (Balanced.tail hrun rfl).tail rfl⟩
    case isFalse =>
      obtain ⟨⟨lower', upper'⟩, hrest, heq⟩ := Option.map_eq_some_iff.mp h
      obtain ⟨rfl, rfl⟩ := Prod.mk.inj heq
      exact ih (s := s.step c) (hescapes.step c) hrun hrest

theorem Balanced.splitRange {text lower upper : List Char} (h : Balanced text)
    (hsplit : splitRangeFrom {} text = some (lower, upper)) : Balanced lower ∧ Balanced upper :=
  bounds_of_splitRangeFrom text Scan.escapesInside_start h hsplit

/-! ### Groups -/

/-- What closes too often is a bracket at the top level. -/
theorem Scan.closing_of_underflow {s : Scan} {c : Char} (hescapes : s.EscapesInside)
    (hunder : s.underflow = false) (h : (s.step c).underflow = true) : s = {} ∧ IsClosing c := by
  obtain ⟨depth, quoted, escaped, underflow⟩ := s
  obtain rfl : underflow = false := hunder
  unfold step at h
  split_ifs at h
  simp_all [IsClosing, EscapesInside]

/-- **A group ends with the first bracket that its inside has not opened.** -/
theorem balanced_of_closeGroup (text : List Char) : ∀ {s : Scan} {inside rest : List Char},
    s.EscapesInside → s.underflow = false →
      closeGroup (s.within { depth := 1 }) text = some (inside, rest) →
        s.run inside = {} ∧ ∃ closing, IsClosing closing ∧ text = inside ++ closing :: rest := by
  induction text with
  | nil => exact fun _ _ h => by cases h
  | cons c cs ih =>
    intro s inside rest hescapes hunder h
    rw [closeGroup] at h
    cases hstep : (s.step c).underflow with
    | false =>
      rw [Scan.step_within _ hstep] at h
      -- the level of the group itself is still open behind the character
      have hopen : (((s.step c).within { depth := 1 }).depth == 0 &&
          !((s.step c).within { depth := 1 }).quoted) = false := rfl
      rw [hopen, if_neg Bool.false_ne_true] at h
      obtain ⟨⟨inside', rest'⟩, hrest, heq⟩ := Option.map_eq_some_iff.mp h
      obtain ⟨rfl, rfl⟩ := Prod.mk.inj heq
      obtain ⟨hrun, closing, hclosing, rfl⟩ := ih (hescapes.step c) hstep hrest
      exact ⟨hrun, closing, hclosing, rfl⟩
    | true =>
      obtain ⟨rfl, hclosing⟩ := Scan.closing_of_underflow hescapes hunder hstep
      have hback : Scan.step (Scan.within {} { depth := 1 }) c = {} :=
        Scan.step_closing Scan.outside_start hclosing
      rw [hback] at h
      obtain ⟨rfl, rfl⟩ := Prod.mk.inj (Option.some.inj h)
      exact ⟨rfl, c, hclosing, rfl⟩

/-- The inside of a group that is split off, and the bracket behind it. -/
theorem balanced_of_splitGroup {opening : Char} (ho : IsOpening opening)
    {text inside rest : List Char} (h : splitGroup (opening :: text) = some (inside, rest)) :
    Balanced inside ∧ ∃ closing, IsClosing closing ∧ text = inside ++ closing :: rest := by
  rw [splitGroup, Scan.step_opening Scan.outside_start ho] at h
  exact balanced_of_closeGroup text (s := {}) Scan.escapesInside_start rfl h

/-- What never comes back to the top level leaves something open. -/
theorem atTop_eq_false_of_closeGroup (text : List Char) : ∀ {s : Scan}, closeGroup s text = none →
    text ≠ [] → (s.run text).atTop = false := by
  induction text with
  | nil => exact fun _ hne => absurd rfl hne
  | cons c cs ih =>
    intro s h _
    rw [closeGroup] at h
    split at h
    case isTrue => cases h
    case isFalse hopen =>
      rw [Option.map_eq_none_iff] at h
      cases cs with
      | nil =>
        rw [Bool.and_comm] at hopen
        exact Bool.eq_false_iff.mpr hopen
      | cons d ds => exact ih h (List.cons_ne_nil _ _)

/-- **A balanced text that opens a group closes it**, and both its inside and what is behind it
are balanced. -/
theorem Balanced.exists_splitGroup {opening : Char} (ho : IsOpening opening) {text : List Char}
    (h : Balanced (opening :: text)) :
    ∃ inside rest, splitGroup (opening :: text) = some (inside, rest) ∧ Balanced inside ∧
      Balanced rest := by
  have hopen : Scan.step {} opening = { depth := 1 } := Scan.step_opening Scan.outside_start ho
  cases hsplit : splitGroup (opening :: text) with
  | some r =>
    obtain ⟨inside, rest⟩ := r
    obtain ⟨hinside, closing, hclosing, rfl⟩ := balanced_of_splitGroup ho hsplit
    refine ⟨inside, rest, rfl, hinside, ?_⟩
    have hclose : Scan.step { depth := 1 } closing = {} :=
      Scan.step_closing Scan.outside_start hclosing
    have hdeep : Scan.Outside { depth := 1 } := ⟨rfl, rfl⟩
    rw [Balanced, Scan.run_cons, hopen, Scan.run_append, hinside.run_eq hdeep, Scan.run_cons,
      hclose] at h
    exact h
  | none =>
    rw [splitGroup, hopen] at hsplit
    rw [Balanced, Scan.run_cons, hopen] at h
    cases text with
    | nil => cases h
    | cons c cs =>
      have := atTop_eq_false_of_closeGroup _ hsplit (List.cons_ne_nil _ _)
      rw [h] at this
      cases this

theorem Balanced.unwrapGroup {opening : Char} (ho : IsOpening opening) {text inside : List Char}
    (h : unwrapGroup opening text = some inside) : Balanced inside := by
  unfold Grammar.unwrapGroup at h
  split at h
  case isFalse => cases h
  case isTrue hhead =>
    obtain ⟨cs, rfl⟩ := List.head?_eq_some_iff.mp (beq_iff_eq.mp hhead)
    split at h
    case h_2 => cases h
    case h_1 inner hsplit =>
      obtain rfl := Option.some.inj h
      exact (balanced_of_splitGroup ho hsplit).1

/-! ### Literals -/

/-- **A balanced text that begins with a literal can be read**, and the rest is balanced. -/
theorem Balanced.exists_readQuoted {text : List Char} (h : Balanced ('"' :: text)) :
    ∃ content rest, readQuoted ('"' :: text) = .ok (content, rest) ∧ Balanced rest := by
  have hread := (readQuoted_isOk_iff Scan.outside_start).mpr
    ⟨'"' :: text, [], (List.append_nil _).symm, List.cons_ne_nil _ _, congrArg Scan.quoted h⟩
  obtain ⟨⟨content, rest⟩, hread⟩ := hread
  obtain ⟨literal, hsplit, hrun, -⟩ := leaves_of_readQuoted Scan.outside_start hread
  rw [hsplit] at h
  exact ⟨content, rest, hread, Balanced.of_append hrun h⟩

end Grammar

end TableQuery
