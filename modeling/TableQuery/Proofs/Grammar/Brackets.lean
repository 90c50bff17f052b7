import TableQuery.Proofs.Grammar.Segments
import TableQuery.Proofs.Grammar.Variants.Statements

/-!
# Brackets that are counted

A scan counts the brackets that are open, and nothing tells it of which kind they are. So
in a text that is read the brackets outside of its literals are nested, but a parenthesis
may be closed by a square bracket, and the other way round
(`TableQuery.Grammar.paired_brackets`).

Which closing bracket has the wrong kind can be said, as each of them closes the opening
bracket that counting pairs it with. `TableQuery.Grammar.mend` gives all of them the right
kind, and only a spelling is mended that way: the text that comes out is read as well, as
the same statements up to the kinds of closing brackets in their texts
(`TableQuery.brackets_of_parse`).
-/

namespace TableQuery

namespace Grammar

/-! ### The brackets of a text -/

/-- Where a text goes on: outside of string literals, in one of them, or in one behind a
backslash. -/
inductive Place where
  | outside
  | inside
  | escaped
deriving DecidableEq, Repr

/-- The place behind one more character. -/
def Place.step : Place → Char → Place
  | outside, c => if c = '"' then inside else outside
  | inside, c => if c = '"' then outside else if c = '\\' then escaped else inside
  | escaped, _ => inside

/-- The brackets of a text that stand outside of its string literals. -/
def brackets : Place → List Char → List Char
  | _, [] => []
  | p, c :: text =>
    if p = .outside ∧ (IsOpening c ∨ IsClosing c) then c :: brackets p text
    else brackets (p.step c) text

theorem brackets_of_bracket {c : Char} (h : IsOpening c ∨ IsClosing c) (text : List Char) :
    brackets .outside (c :: text) = c :: brackets .outside text :=
  if_pos ⟨rfl, h⟩

theorem brackets_of_other {p : Place} {c : Char}
    (h : ¬(p = .outside ∧ (IsOpening c ∨ IsClosing c))) (text : List Char) :
    brackets p (c :: text) = brackets (p.step c) text :=
  if_neg h

/-- A character opens a bracket, or it closes one, or it does not count. -/
theorem bracket_cases (p : Place) (c : Char) :
    (p = .outside ∧ IsOpening c) ∨ (p = .outside ∧ IsClosing c) ∨
      ¬(p = .outside ∧ (IsOpening c ∨ IsClosing c)) := by
  rw [and_or_left, ← or_assoc]
  exact Classical.em _

/-- Brackets that are nested, with pairs that fit. -/
inductive Paired (fits : Char → Char → Prop) : List Char → Prop
  | nil : Paired fits []
  | group {opening closing : Char} {inside rest : List Char} :
      fits opening closing → Paired fits inside → Paired fits rest →
        Paired fits (opening :: (inside ++ closing :: rest))

/-- An opening and a closing bracket, of whatever kind. -/
def AnyKind (opening closing : Char) : Prop :=
  IsOpening opening ∧ IsClosing closing

/-- An opening and a closing bracket of one kind. -/
def SameKind (opening closing : Char) : Prop :=
  (opening = '(' ∧ closing = ')') ∨ (opening = '[' ∧ closing = ']')

/-! ### Counting -/

/-- Brackets that close so many brackets in front of them, and are nested otherwise. -/
def Closes : Nat → List Char → Prop
  | 0, bs => Paired AnyKind bs
  | n + 1, bs => ∃ front closing rest,
      bs = front ++ closing :: rest ∧ Paired AnyKind front ∧ IsClosing closing ∧ Closes n rest

/-- One of the brackets in front is the next one. -/
theorem Closes.opening {n : Nat} {bs : List Char} (h : Closes (n + 1) bs) {opening : Char}
    (ho : IsOpening opening) : Closes n (opening :: bs) := by
  obtain ⟨front, closing, rest, rfl, hfront, hc, hrest⟩ := h
  cases n with
  | zero => exact .group ⟨ho, hc⟩ hfront hrest
  | succ n =>
    -- the group goes to the nested brackets in front of the next one that closes
    obtain ⟨front', closing', rest', rfl, hfront', hc', hrest'⟩ := hrest
    exact ⟨opening :: (front ++ closing :: front'), closing', rest', by simp,
      .group ⟨ho, hc⟩ hfront hfront', hc', hrest'⟩

namespace Scan

/-- Where a scan is. -/
def place (s : Scan) : Place :=
  if s.quoted then if s.escaped then .escaped else .inside else .outside

theorem place_eq_outside {s : Scan} : s.place = .outside ↔ s.quoted = false := by
  obtain ⟨depth, quoted, escaped, underflow⟩ := s
  cases quoted <;> cases escaped <;> simp [place]

theorem outside_of_place {s : Scan} (hs : s.EscapesInside) (h : s.place = .outside) :
    s.Outside := by
  have hquoted := place_eq_outside.mp h
  refine ⟨hquoted, Bool.eq_false_iff.mpr fun hescaped => ?_⟩
  rw [hs hescaped] at hquoted
  cases hquoted

theorem place_step {s : Scan} (h : s.EscapesInside) (c : Char) :
    (s.step c).place = s.place.step c := by
  obtain ⟨depth, quoted, escaped, underflow⟩ := s
  cases quoted with
  | true =>
    cases escaped with
    | true => rfl
    | false =>
      by_cases hquote : c = '"'
      · subst hquote
        rfl
      by_cases hslash : c = '\\'
      · subst hslash
        rfl
      simp [step, place, Place.step, hquote, hslash]
  | false =>
    obtain rfl : escaped = false := Bool.eq_false_iff.mpr fun hescaped =>
      Bool.noConfusion (h hescaped : false = true)
    by_cases hquote : c = '"'
    · subst hquote
      rfl
    -- brackets are counted, and everything else is passed over
    change _ = Place.outside.step c
    rw [show Place.outside.step c = .outside from if_neg hquote, place_eq_outside]
    simp only [step, beq_iff_eq, hquote, Bool.false_eq_true, if_false]
    split_ifs <;> rfl

/-- Only brackets outside of literals are counted. -/
theorem counts_step {s : Scan} {c : Char}
    (h : ¬(s.place = .outside ∧ (IsOpening c ∨ IsClosing c))) :
    (s.step c).depth = s.depth ∧ (s.step c).underflow = s.underflow := by
  rw [place_eq_outside] at h
  cases hquoted : s.quoted with
  | true =>
    rw [step, if_pos hquoted]
    split_ifs <;> exact ⟨rfl, rfl⟩
  | false =>
    have hopening : ¬(c == '(' || c == '[') = true := fun hc =>
      h ⟨hquoted, Or.inl (by simpa [IsOpening] using hc)⟩
    have hclosing : ¬(c == ')' || c == ']') = true := fun hc =>
      h ⟨hquoted, Or.inr (by simpa [IsClosing] using hc)⟩
    rw [step, if_neg (by simp [hquoted]), if_neg hopening, if_neg hclosing]
    split_ifs <;> exact ⟨rfl, rfl⟩

theorem step_closing_zero {s : Scan} (hquoted : s.quoted = false) (hdepth : s.depth = 0)
    {c : Char} (hc : IsClosing c) : (s.step c).underflow = true := by
  rcases hc with rfl | rfl <;> simp [step, hquoted, hdepth]

theorem step_closing_succ {s : Scan} (hquoted : s.quoted = false) {n : Nat}
    (hdepth : s.depth = n + 1) {c : Char} (hc : IsClosing c) :
    s.step c = { s with depth := n } := by
  rcases hc with rfl | rfl <;> simp [step, hquoted, hdepth]

/-- **Counting pairs the brackets**, without regard to their kind. -/
theorem closes_of_run (text : List Char) : ∀ {s : Scan}, s.EscapesInside → s.underflow = false →
    (s.run text).isBalanced = true → Closes s.depth (brackets s.place text) := by
  induction text with
  | nil =>
    intro s _ _ h
    simp only [run_nil, isBalanced, atTop, Bool.and_eq_true, beq_iff_eq] at h
    rw [h.1.2]
    exact .nil
  | cons c cs ih =>
    intro s hs hunder h
    have hrest := ih (hs.step c)
    rw [run_cons] at h
    rw [place_step hs] at hrest
    by_cases hbracket : s.place = .outside ∧ (IsOpening c ∨ IsClosing c)
    · obtain ⟨hplace, hc⟩ := hbracket
      have houtside := outside_of_place hs hplace
      have hstep : Place.step .outside c = .outside := by
        rcases hc with (rfl | rfl) | (rfl | rfl) <;> rfl
      rw [hplace, brackets_of_bracket hc]
      rw [hplace, hstep] at hrest
      rcases hc with ho | hc
      · rw [step_opening houtside ho] at hrest h
        exact (hrest hunder h).opening ho
      · cases hdepth : s.depth with
        | zero =>
          -- nothing is open, and that this bracket closes too often is noticed in the end
          have hlast := underflow_run cs (step_closing_zero houtside.1 hdepth hc)
          rw [isBalanced, hlast] at h
          simp at h
        | succ n =>
          rw [step_closing_succ houtside.1 hdepth hc] at hrest h
          exact ⟨[], c, _, rfl, .nil, hc, hrest hunder h⟩
    · rw [brackets_of_other hbracket]
      obtain ⟨hdepth, hunder'⟩ := counts_step hbracket
      rw [hdepth, hunder'] at hrest
      exact hrest hunder h

end Scan

/-- **The brackets of a balanced text are nested**, without regard to their kind. -/
theorem paired_brackets {text : List Char} (h : isBalanced text = true) :
    Paired AnyKind (brackets .outside text) :=
  Scan.closes_of_run text (s := {}) (by simp [Scan.EscapesInside]) rfl h

/-! ### Mending -/

/-- The bracket that closes a bracket of its kind. -/
def closingOf (opening : Char) : Char :=
  if opening = '(' then ')' else ']'

/-- The kind that a closing bracket should have, behind brackets that are open; the
innermost of these comes first. Where none is open it keeps its own. -/
def mendClosing (opened : List Char) (c : Char) : Char :=
  (opened.head?.map closingOf).getD c

/-- The brackets with every closing one given the kind of the one it closes, behind some
that are open; the innermost of these comes first. -/
def mendBrackets : List Char → List Char → List Char
  | _, [] => []
  | opened, b :: bs =>
    if IsOpening b then b :: mendBrackets (b :: opened) bs
    else mendClosing opened b :: mendBrackets opened.tail bs

/-- The text with every closing bracket outside of its literals given the kind of the one
it closes, behind some that are open. -/
def mendFrom : Place → List Char → List Char → List Char
  | _, _, [] => []
  | p, opened, c :: text =>
    if p = .outside ∧ IsOpening c then c :: mendFrom p (c :: opened) text
    else if p = .outside ∧ IsClosing c then mendClosing opened c :: mendFrom p opened.tail text
    else c :: mendFrom (p.step c) opened text

theorem not_isOpening_of_isClosing {c : Char} (h : IsClosing c) : ¬IsOpening c := by
  rcases h with rfl | rfl <;> decide

section Steps

variable {c : Char} (text : List Char)

theorem mendFrom_opening (h : IsOpening c) (opened : List Char) :
    mendFrom .outside opened (c :: text) = c :: mendFrom .outside (c :: opened) text :=
  if_pos ⟨rfl, h⟩

theorem mendFrom_closing (h : IsClosing c) (opened : List Char) :
    mendFrom .outside opened (c :: text) =
      mendClosing opened c :: mendFrom .outside opened.tail text := by
  rw [mendFrom, if_neg fun ho => not_isOpening_of_isClosing h ho.2, if_pos ⟨rfl, h⟩]

theorem mendFrom_other {p : Place} (h : ¬(p = .outside ∧ (IsOpening c ∨ IsClosing c)))
    (opened : List Char) :
    mendFrom p opened (c :: text) = c :: mendFrom (p.step c) opened text := by
  rw [mendFrom, if_neg fun ho => h ⟨ho.1, Or.inl ho.2⟩, if_neg fun hc => h ⟨hc.1, Or.inr hc.2⟩]

end Steps

theorem isClosing_mendClosing (opened : List Char) {c : Char} (h : IsClosing c) :
    IsClosing (mendClosing opened c) := by
  cases opened with
  | nil => exact h
  | cons o opened =>
    show IsClosing (closingOf o)
    unfold closingOf
    split_ifs
    · exact Or.inl rfl
    · exact Or.inr rfl

theorem sameKind_closingOf {o : Char} (h : IsOpening o) : SameKind o (closingOf o) := by
  rcases h with rfl | rfl
  · exact Or.inl ⟨rfl, rfl⟩
  · exact Or.inr ⟨rfl, rfl⟩

theorem SameKind.closingOf_eq {o c : Char} (h : SameKind o c) : closingOf o = c := by
  rcases h with ⟨rfl, rfl⟩ | ⟨rfl, rfl⟩ <;> rfl

theorem SameKind.anyKind {o c : Char} (h : SameKind o c) : AnyKind o c := by
  rcases h with ⟨rfl, rfl⟩ | ⟨rfl, rfl⟩
  · exact ⟨Or.inl rfl, Or.inl rfl⟩
  · exact ⟨Or.inr rfl, Or.inr rfl⟩

theorem mendBrackets_opening {o : Char} (h : IsOpening o) (opened bs : List Char) :
    mendBrackets opened (o :: bs) = o :: mendBrackets (o :: opened) bs := by
  rw [mendBrackets, if_pos h]

theorem mendBrackets_closing {c : Char} (h : IsClosing c) (opened bs : List Char) :
    mendBrackets opened (c :: bs) = mendClosing opened c :: mendBrackets opened.tail bs := by
  rw [mendBrackets, if_neg (not_isOpening_of_isClosing h)]

/-- A group is mended from its inside, and what follows it sees nothing of it. -/
theorem mendBrackets_group {o c : Char} (h : AnyKind o c) {inside mended : List Char}
    (hinside : ∀ opened rest,
      mendBrackets opened (inside ++ rest) = mended ++ mendBrackets opened rest)
    (opened rest : List Char) :
    mendBrackets opened (o :: (inside ++ c :: rest)) =
      o :: (mended ++ closingOf o :: mendBrackets opened rest) := by
  rw [mendBrackets_opening h.1, hinside, mendBrackets_closing h.2]
  rfl

/-- **Mended brackets are nested by kind.** -/
theorem exists_mended {bs : List Char} (h : Paired AnyKind bs) :
    ∃ mended, Paired SameKind mended ∧ ∀ opened rest,
      mendBrackets opened (bs ++ rest) = mended ++ mendBrackets opened rest := by
  induction h with
  | nil => exact ⟨[], .nil, fun _ _ => rfl⟩
  | @group o c inside rest hkind _ _ ihinside ih =>
    obtain ⟨inside', hinside', hmend⟩ := ihinside
    obtain ⟨rest', hrest', hmend'⟩ := ih
    refine ⟨o :: (inside' ++ closingOf o :: rest'),
      .group (sameKind_closingOf hkind.1) hinside' hrest', fun opened more => ?_⟩
    have htext : o :: (inside ++ c :: rest) ++ more = o :: (inside ++ c :: (rest ++ more)) := by
      simp
    rw [htext, mendBrackets_group hkind hmend, hmend']
    simp

/-- Brackets that are nested by kind need no mending. -/
theorem mendBrackets_append_of_paired {bs : List Char} (h : Paired SameKind bs) :
    ∀ opened rest, mendBrackets opened (bs ++ rest) = bs ++ mendBrackets opened rest := by
  induction h with
  | nil => exact fun _ _ => rfl
  | @group o c inside rest hkind _ _ ihinside ih =>
    intro opened more
    have htext : o :: (inside ++ c :: rest) ++ more = o :: (inside ++ c :: (rest ++ more)) := by
      simp
    rw [htext, mendBrackets_group hkind.anyKind ihinside, ih, hkind.closingOf_eq]
    simp

theorem paired_mendBrackets {bs : List Char} (h : Paired AnyKind bs) :
    Paired SameKind (mendBrackets [] bs) := by
  obtain ⟨mended, hmended, hmend⟩ := exists_mended h
  have heq := hmend [] []
  rw [List.append_nil, mendBrackets, List.append_nil] at heq
  rwa [heq]

theorem mendBrackets_eq_self {bs : List Char} (h : Paired SameKind bs) :
    mendBrackets [] bs = bs := by
  have heq := mendBrackets_append_of_paired h [] []
  rwa [List.append_nil, mendBrackets, List.append_nil] at heq

/-! #### Texts -/

/-- The brackets of the mended text are the mended brackets. -/
theorem brackets_mendFrom (text : List Char) : ∀ (p : Place) (opened : List Char),
    brackets p (mendFrom p opened text) = mendBrackets opened (brackets p text) := by
  induction text with
  | nil => intro p opened; rfl
  | cons c text ih =>
    intro p opened
    obtain ⟨rfl, ho⟩ | ⟨rfl, hc⟩ | hother := bracket_cases p c
    · rw [mendFrom_opening text ho, brackets_of_bracket (Or.inl ho),
        brackets_of_bracket (Or.inl ho), ih, mendBrackets_opening ho]
    · rw [mendFrom_closing text hc, brackets_of_bracket (Or.inr (isClosing_mendClosing opened hc)),
        brackets_of_bracket (Or.inr hc), ih, mendBrackets_closing hc]
    · rw [mendFrom_other text hother, brackets_of_other hother, brackets_of_other hother, ih]

/-- Mending leaves a text alone exactly if it leaves its brackets alone. -/
theorem mendFrom_eq_self_iff (text : List Char) : ∀ (p : Place) (opened : List Char),
    mendFrom p opened text = text ↔ mendBrackets opened (brackets p text) = brackets p text := by
  induction text with
  | nil => intro p opened; exact iff_of_true rfl rfl
  | cons c text ih =>
    intro p opened
    obtain ⟨rfl, ho⟩ | ⟨rfl, hc⟩ | hother := bracket_cases p c
    · rw [mendFrom_opening text ho, brackets_of_bracket (Or.inl ho), mendBrackets_opening ho,
        List.cons_inj_right, List.cons_inj_right, ih]
    · rw [mendFrom_closing text hc, brackets_of_bracket (Or.inr hc), mendBrackets_closing hc,
        List.cons_eq_cons, List.cons_eq_cons, ih]
    · rw [mendFrom_other text hother, brackets_of_other hother, List.cons_inj_right, ih]

/-- The text with every closing bracket outside of its literals given the kind of the one
it closes. -/
def mend (text : List Char) : List Char :=
  mendFrom .outside [] text

/-- **Brackets are nested by kind where there is nothing to mend**, provided that they are
nested at all. -/
theorem paired_sameKind_iff {text : List Char} (h : Paired AnyKind (brackets .outside text)) :
    Paired SameKind (brackets .outside text) ↔ mend text = text := by
  rw [mend, mendFrom_eq_self_iff]
  constructor
  · exact mendBrackets_eq_self
  · intro hsame
    have hmended := paired_mendBrackets h
    rwa [hsame] at hmended

theorem paired_brackets_mend {text : List Char} (h : Paired AnyKind (brackets .outside text)) :
    Paired SameKind (brackets .outside (mend text)) := by
  rw [mend, brackets_mendFrom]
  exact paired_mendBrackets h

/-- **Mending changes nothing but kinds.** An empty pair of parentheses is in order, so it is
left as it is: a bracket that closes right behind a parenthesis outside of literals is
given its kind. -/
theorem variant_mendFrom (text : List Char) : ∀ (p : Place) (opened : List Char) (behind : Bool),
    (behind = true → p = .outside → opened.head? = some '(') →
      Variant behind text (mendFrom p opened text) := by
  induction text with
  | nil => exact fun _ _ _ _ => .nil
  | cons c text ih =>
    intro p opened behind hbehind
    obtain ⟨rfl, ho⟩ | ⟨rfl, hc⟩ | hother := bracket_cases p c
    · rw [mendFrom_opening text ho]
      refine .same c (ih _ _ _ fun hparen _ => ?_)
      rw [List.head?_cons, beq_iff_eq.mp hparen]
    · rw [mendFrom_closing text hc]
      refine .closing hc (isClosing_mendClosing opened hc) (fun hparen _ => ?_)
        (ih _ _ _ fun h => Bool.noConfusion h)
      rw [mendClosing, hbehind hparen rfl]
      rfl
    · rw [mendFrom_other text hother]
      refine .same c (ih _ _ _ fun hparen hplace => ?_)
      obtain rfl := beq_iff_eq.mp hparen
      cases p with
      | outside => exact (hother ⟨rfl, Or.inl (Or.inl rfl)⟩).elim
      | inside => cases hplace
      | escaped => cases hplace

theorem variant_mend (text : List Char) : Variant false text (mend text) :=
  variant_mendFrom text _ _ _ fun h => Bool.noConfusion h

end Grammar

open Grammar

/-- **What the brackets of a text that is read are like.** Outside of string literals they
are nested if their kinds are left aside, with nothing left open. They are nested by kind
exactly if every one that closes has the kind of the one that it closes, that is, if the
text is as it is when all of them are given that kind. Given that kind they are nested by
kind in any case, and then the text is read as the same statements, up to the kinds of
closing brackets in the texts of these. -/
theorem brackets_of_parse (catalog : Catalog) (text : String) (statements : List Statement)
    (h : parse catalog text = .ok statements) :
    Paired AnyKind (brackets .outside text.toList) ∧
      (Paired SameKind (brackets .outside text.toList) ↔ mend text.toList = text.toList) ∧
      Paired SameKind (brackets .outside (mend text.toList)) ∧
      ∃ others, parse catalog (String.ofList (mend text.toList)) = .ok others ∧
        others.map Statement.foldKinds = statements.map Statement.foldKinds := by
  have hpaired := paired_brackets (isBalanced_of_readStatements h)
  obtain ⟨others, hothers, hsame⟩ := (variant_mend text.toList).readStatements statements h
  rw [← String.toList_ofList (l := mend text.toList)] at hothers
  exact ⟨hpaired, paired_sameKind_iff hpaired, paired_brackets_mend hpaired, others, hothers, hsame⟩

/-- Two kinds are wrong, and neither the brackets in the literal count nor the quote that is
escaped in it. -/
theorem brackets_of_parse_title :
    let text := "[(Where posts:title (\"a\\\")]\"])] | @limit(5]"
    let mended := "[(Where posts:title (\"a\\\")]\"))] | @limit(5)"
    let title : Atom := .condition "posts" (some ["title"]) (.text "a\")]" false .contains)
    let statement : Statement := {
      expression := .atom title
      stages := [⟨"limit", [⟨none, .num (.int 5)⟩]⟩] }
    parse .blog text = .ok [statement] ∧
      brackets .outside text.toList = "[((])](]".toList ∧
      String.ofList (mend text.toList) = mended ∧
      brackets .outside mended.toList = "[(())]()".toList ∧
      ∃ others, parse .blog mended = .ok others ∧
        others.map Statement.foldKinds = [statement.foldKinds] := by
  intro text mended title statement
  have hparse : parse .blog text = .ok [statement] := by decide +kernel
  have hmend : String.ofList (mend text.toList) = mended := by decide +kernel
  obtain ⟨-, -, -, hread⟩ := brackets_of_parse .blog text [statement] hparse
  rw [hmend] at hread
  exact ⟨hparse, by decide +kernel, hmend, by decide +kernel, hread⟩

/-- **A parenthesis closes a square bracket**, and the text is read. -/
theorem not_paired_of_parse :
    let text := "[Where posts:id (7))"
    let statement : Statement := {
      expression := .atom (.condition "posts" (some ["id"]) (.text "7" false .contains)) }
    parse .blog text = .ok [statement] ∧
      ¬Paired SameKind (brackets .outside text.toList) ∧
      String.ofList (mend text.toList) = "[Where posts:id (7)]" := by
  intro text statement
  refine ⟨by decide +kernel, fun h => ?_, by decide +kernel⟩
  have hsame := mendBrackets_eq_self h
  revert hsame
  decide +kernel

end TableQuery
