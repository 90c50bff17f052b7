import TableQuery.Grammar.Quoted
import TableQuery.Grammar.Scan
import TableQuery.Proofs.Text.Characters

/-!
# Well-nested text

Every way of cutting a text threads a `TableQuery.Grammar.Scan` through it and looks at
the characters at the top level only. This file says once what a scan does on text in
which every string literal and every bracket is closed, and the cuts follow from that.

`TableQuery.Grammar.Nested P` is the text that is built of plain characters, string
literals and groups in brackets, whose characters *at the top level* satisfy `P`; what
stands inside a literal or a group is arbitrary. Scanning such a text leads back to
where it started (`TableQuery.Grammar.Nested.run_eq`) and meets nothing at the top level
but characters with `P` (`TableQuery.Grammar.Nested.of_mem_top`). So no cut at a character
without `P` falls into the text: each of the functions that cut *passes over* it.
-/

namespace TableQuery

namespace Grammar

open Text

/-! ### Scanning -/

namespace Scan

/-- Outside of string literals. -/
def Outside (s : Scan) : Prop :=
  s.quoted = false ∧ s.escaped = false

theorem outside_start : Outside {} := ⟨rfl, rfl⟩

@[simp] theorem run_nil (s : Scan) : s.run [] = s := rfl

@[simp] theorem run_cons (s : Scan) (c : Char) (text : List Char) :
    s.run (c :: text) = (s.step c).run text := rfl

theorem run_append (s : Scan) (a b : List Char) : s.run (a ++ b) = (s.run a).run b :=
  List.foldl_append

/-- The characters of a text that stand at the top level. -/
def top (s : Scan) : List Char → List Char
  | [] => []
  | c :: text => if s.atTop then c :: top (s.step c) text else top (s.step c) text

theorem top_append (a b : List Char) : ∀ s : Scan, s.top (a ++ b) = s.top a ++ (s.run a).top b := by
  induction a with
  | nil => intro s; rfl
  | cons c a ih =>
    intro s
    rw [List.cons_append, top, top, ih, run_cons]
    split <;> rfl

/-- The first character stands at the top level if the scan does. -/
theorem mem_top_cons {s : Scan} (h : s.atTop = true) (c : Char) (text : List Char) :
    c ∈ s.top (c :: text) := by
  rw [top, if_pos h]
  exact List.mem_cons_self ..

/-- What fails of the characters at the top level fails of the first one, if it is there. -/
theorem atTop_and_eq_false {s : Scan} {c : Char} {text : List Char} {b : Bool}
    (h : c ∈ s.top (c :: text) → b = false) : (s.atTop && b) = false := by
  cases htop : s.atTop with
  | true => rw [Bool.true_and, h (mem_top_cons htop c text)]
  | false => rfl

theorem mem_top_of_step {s : Scan} {c d : Char} {text : List Char}
    (h : d ∈ (s.step c).top text) : d ∈ s.top (c :: text) := by
  rw [top]
  split
  · exact List.mem_cons_of_mem _ h
  · exact h

end Scan

/-! ### Characters -/

/-- A character that opens and closes nothing. -/
def isPlain (c : Char) : Bool :=
  !(c == '"' || c == '(' || c == '[' || c == ')' || c == ']')

/-- A bracket that opens a group. -/
def IsOpening (c : Char) : Prop :=
  c = '(' ∨ c = '['

/-- A bracket that closes a group. -/
def IsClosing (c : Char) : Prop :=
  c = ')' ∨ c = ']'

instance (c : Char) : Decidable (IsOpening c) :=
  inferInstanceAs (Decidable (_ ∨ _))

instance (c : Char) : Decidable (IsClosing c) :=
  inferInstanceAs (Decidable (_ ∨ _))

theorem isPlain_of_isNameChar {c : Char} (h : isNameChar c = true) : isPlain c = true := by
  have hne : ∀ d, isNameChar d = false → c ≠ d := fun d hd => ne_of_isNameChar h hd
  simp [isPlain, hne '"' rfl, hne '(' rfl, hne '[' rfl, hne ')' rfl, hne ']' rfl]

namespace Scan

variable {s : Scan}

theorem step_plain (hs : s.Outside) {c : Char} (hc : isPlain c = true) : s.step c = s := by
  simp only [isPlain, Bool.not_eq_true', Bool.or_eq_false_iff] at hc
  obtain ⟨⟨⟨⟨hquote, hparen⟩, hsquare⟩, hparen'⟩, hsquare'⟩ := hc
  simp [step, hs.1, hquote, hparen, hsquare, hparen', hsquare']

theorem step_opening (hs : s.Outside) {c : Char} (hc : IsOpening c) :
    s.step c = { s with depth := s.depth + 1 } := by
  rcases hc with rfl | rfl <;> simp [step, hs.1]

theorem step_closing (hs : s.Outside) {c : Char} (hc : IsClosing c) :
    Scan.step { s with depth := s.depth + 1 } c = s := by
  obtain ⟨depth, quoted, escaped, underflow⟩ := s
  obtain ⟨rfl, rfl⟩ : quoted = false ∧ escaped = false := hs
  rcases hc with rfl | rfl <;> simp [step]

/-- A quote opens a literal. -/
theorem step_quote (hs : s.Outside) : s.step '"' = { s with quoted := true } := by
  simp [step, hs.1]

/-- A quote closes the literal that it opened. -/
theorem step_quote_quoted (hs : s.Outside) : Scan.step { s with quoted := true } '"' = s := by
  obtain ⟨depth, quoted, escaped, underflow⟩ := s
  obtain ⟨rfl, rfl⟩ : quoted = false ∧ escaped = false := hs
  rfl

/-- Inside a literal, the written form of a text leads back and shows nothing. -/
theorem run_escapeQuoted (hs : s.Outside) (text : List Char) :
    Scan.run { s with quoted := true } (escapeQuoted text) = { s with quoted := true } ∧
      Scan.top { s with quoted := true } (escapeQuoted text) = [] := by
  induction text with
  | nil => exact ⟨rfl, rfl⟩
  | cons c cs ih =>
    rw [escapeQuoted]
    split
    · -- a backslash, and the character it escapes
      have hslash : Scan.step { s with quoted := true } '\\' =
          { s with quoted := true, escaped := true } := by
        simp [step, hs.2]
      have hescaped : Scan.step { s with quoted := true, escaped := true } c =
          { s with quoted := true } := by
        simp [step, hs.2]
      simpa [top, atTop, hslash, hescaped] using ih
    · rename_i hc
      simp only [Bool.or_eq_true, beq_iff_eq, not_or] at hc
      have hstep : Scan.step { s with quoted := true } c = { s with quoted := true } := by
        simp [step, hs.2, hc.1, hc.2]
      simpa [top, atTop, hstep] using ih

theorem run_writeQuoted (hs : s.Outside) (text : List Char) : s.run (writeQuoted text) = s := by
  rw [writeQuoted, List.cons_append, run_cons, step_quote hs, run_append,
    (run_escapeQuoted hs text).1, run_cons, step_quote_quoted hs, run_nil]

/-- Of a literal only the opening quote stands at the top level. -/
theorem top_writeQuoted (hs : s.Outside) (text : List Char) :
    s.top (writeQuoted text) = if s.atTop then ['"'] else [] := by
  -- the closing quote is met inside the literal
  have hinside : Scan.top { s with quoted := true } (escapeQuoted text ++ ['"']) = [] := by
    rw [top_append, (run_escapeQuoted hs text).1, (run_escapeQuoted hs text).2]
    simp [top, atTop]
  rw [writeQuoted, List.cons_append, top, step_quote hs, hinside]

/-- Inside a group and at its closing bracket a scan is not at the top level. -/
theorem top_group (hs : s.Outside) {closing : Char} (hc : IsClosing closing) {inside : List Char}
    (hrun : Scan.run { s with depth := s.depth + 1 } inside = { s with depth := s.depth + 1 })
    (hnone : Scan.top { s with depth := s.depth + 1 } inside = []) (rest : List Char) :
    Scan.top { s with depth := s.depth + 1 } (inside ++ closing :: rest) = s.top rest := by
  rw [top_append, hnone, hrun, top, step_closing hs hc]
  simp [atTop]

/-! #### Inside of other brackets

A scan that never meets a bracket that it has not opened does the same with other brackets
open around it, only that nothing is at the top level then. -/

/-- A bracket that closes too often is not forgotten. -/
theorem underflow_run (text : List Char) : ∀ {s : Scan}, s.underflow = true →
    (s.run text).underflow = true := by
  induction text with
  | nil => exact id
  | cons c cs ih =>
    intro s hs
    refine ih ?_
    unfold step
    split_ifs <;> simp [hs]

theorem underflow_step {c : Char} {text : List Char} (h : (s.run (c :: text)).underflow = false) :
    (s.step c).underflow = false :=
  Bool.eq_false_iff.mpr fun hunder => by
    rw [run_cons, underflow_run text hunder] at h
    cases h

/-- The scan with the brackets of another one open around it. -/
def within (s outer : Scan) : Scan :=
  { s with depth := s.depth + outer.depth, underflow := outer.underflow }

theorem step_within {s : Scan} (outer : Scan) {c : Char} (h : (s.step c).underflow = false) :
    (s.within outer).step c = (s.step c).within outer := by
  obtain ⟨depth, quoted, escaped, underflow⟩ := s
  cases quoted with
  | true =>
    cases escaped with
    | true => rfl
    | false => by_cases hslash : c = '\\' <;> by_cases hquote : c = '"' <;>
        simp [step, within, hslash, hquote]
  | false =>
    by_cases hopening : IsOpening c
    · rcases hopening with rfl | rfl <;> simp [step, within, Nat.add_right_comm]
    by_cases hclosing : IsClosing c
    · -- the bracket that it closes is one of its own
      have hdepth : depth ≠ 0 := by
        rintro rfl
        rcases hclosing with rfl | rfl <;> simp [step] at h
      have hsub : depth + outer.depth - 1 = depth - 1 + outer.depth := by omega
      rcases hclosing with rfl | rfl <;> simp [step, within, hdepth, hsub]
    · simp only [IsOpening, IsClosing, not_or] at hopening hclosing
      by_cases hquote : c = '"' <;> simp [step, within, hopening, hclosing, hquote]

theorem run_within (outer : Scan) (text : List Char) : ∀ {s : Scan},
    (s.run text).underflow = false → (s.within outer).run text = (s.run text).within outer := by
  induction text with
  | nil => exact fun _ => rfl
  | cons c cs ih =>
    intro s h
    have hstep := underflow_step h
    rw [run_cons, step_within outer hstep, ih h, run_cons]

theorem top_within {outer : Scan} (hdeep : 0 < outer.depth) (text : List Char) : ∀ {s : Scan},
    (s.run text).underflow = false → (s.within outer).top text = [] := by
  induction text with
  | nil => exact fun _ => rfl
  | cons c cs ih =>
    intro s h
    have hstep := underflow_step h
    have hinside : (s.within outer).atTop = false := by
      simp [atTop, within, Nat.pos_iff_ne_zero.mp hdeep]
    rw [top, hinside, if_neg Bool.false_ne_true, step_within outer hstep, ih h]

theorem within_start {s : Scan} (hs : s.Outside) : within {} s = s := by
  obtain ⟨depth, quoted, escaped, underflow⟩ := s
  obtain ⟨rfl, rfl⟩ : quoted = false ∧ escaped = false := hs
  simp [within]

end Scan

/-! ### Balanced text -/

/-- A text behind which nothing is open, and in which nothing was closed too often. -/
def Balanced (text : List Char) : Prop :=
  Scan.run {} text = {}

namespace Balanced

variable {a b text : List Char} {s : Scan}

/-- **A scan comes back** to the state in which it met the text. -/
theorem run_eq (h : Balanced text) (hs : s.Outside) : s.run text = s := by
  have hwithin := Scan.run_within s text (congrArg Scan.underflow h)
  rwa [Scan.within_start hs, show Scan.run {} text = {} from h, Scan.within_start hs] at hwithin

/-- Inside of other brackets the text shows nothing. -/
theorem top_eq_nil (h : Balanced text) (hs : s.Outside) (hdeep : 0 < s.depth) :
    s.top text = [] := by
  have hwithin := Scan.top_within hdeep text (congrArg Scan.underflow h)
  rwa [Scan.within_start hs] at hwithin

/-- Behind an opening bracket the top level is what follows the closing one. -/
theorem top_group (h : Balanced text) (hs : s.Outside) {opening closing : Char}
    (ho : IsOpening opening) (hc : IsClosing closing) (rest : List Char) :
    (s.step opening).top (text ++ closing :: rest) = s.top rest := by
  have hdeep : Scan.Outside { s with depth := s.depth + 1 } := hs
  rw [Scan.step_opening hs ho]
  exact Scan.top_group hs hc (h.run_eq hdeep) (h.top_eq_nil hdeep (Nat.succ_pos _)) rest

theorem nil : Balanced [] := rfl

theorem append (ha : Balanced a) (hb : Balanced b) : Balanced (a ++ b) := by
  rw [Balanced, Scan.run_append, ha.run_eq Scan.outside_start]
  exact hb

theorem of_isPlain (h : ∀ c ∈ text, isPlain c = true) : Balanced text := by
  induction text with
  | nil => exact nil
  | cons c cs ih =>
    rw [Balanced, Scan.run_cons, Scan.step_plain Scan.outside_start (h c (List.mem_cons_self ..))]
    exact ih fun d hd => h d (List.mem_cons_of_mem _ hd)

end Balanced

/-! ### Well-nested text -/

/-- Text in which every literal and every bracket is closed, and whose characters at the
top level have a property. As in a scan, brackets are paired without regard to their
kind. -/
inductive Nested : (Char → Prop) → List Char → Prop
  | nil {P : Char → Prop} : Nested P []
  | char {P : Char → Prop} {c : Char} {text : List Char} :
      isPlain c = true → P c → Nested P text → Nested P (c :: text)
  | quoted {P : Char → Prop} (content : List Char) {text : List Char} :
      P '"' → Nested P text → Nested P (writeQuoted content ++ text)
  | group {P : Char → Prop} {opening closing : Char} {inside text : List Char} :
      IsOpening opening → IsClosing closing → P opening → Nested (fun _ => True) inside →
        Nested P text → Nested P (opening :: (inside ++ closing :: text))

namespace Nested

variable {P Q : Char → Prop} {a b text : List Char}

/-- **A scan comes back** to the state in which it met the text. -/
theorem run_eq (h : Nested P text) : ∀ {s : Scan}, s.Outside → s.run text = s := by
  induction h with
  | nil => intro s _; rfl
  | char hc _ _ ih =>
    intro s hs
    rw [Scan.run_cons, Scan.step_plain hs hc, ih hs]
  | quoted content _ _ ih =>
    intro s hs
    rw [Scan.run_append, Scan.run_writeQuoted hs, ih hs]
  | group ho hc _ _ _ ihinside ih =>
    intro s hs
    rw [Scan.run_cons, Scan.step_opening hs ho, Scan.run_append, ihinside (s := { s with
      depth := s.depth + 1 }) hs, Scan.run_cons, Scan.step_closing hs hc, ih hs]

theorem balanced (h : Nested P text) : Balanced text :=
  h.run_eq Scan.outside_start

/-- **What a scan meets at the top level** has the property, and it meets nothing there
if it came from within brackets. -/
theorem of_mem_top (h : Nested P text) : ∀ {s : Scan}, s.Outside → ∀ {c : Char},
    c ∈ s.top text → s.depth = 0 ∧ P c := by
  have hdepth : ∀ {s : Scan}, s.atTop = true → s.depth = 0 := fun {s} hs => by
    simp only [Scan.atTop, Bool.and_eq_true, beq_iff_eq] at hs
    exact hs.2
  induction h with
  | nil => intro s _ c hmem; cases hmem
  | char hc hP _ ih =>
    intro s hs d hmem
    rw [Scan.top, Scan.step_plain hs hc] at hmem
    split at hmem
    · rename_i htop
      rcases List.mem_cons.mp hmem with rfl | hmem
      · exact ⟨hdepth htop, hP⟩
      · exact ih hs hmem
    · exact ih hs hmem
  | quoted content hP _ ih =>
    intro s hs d hmem
    rw [Scan.top_append, Scan.run_writeQuoted hs, Scan.top_writeQuoted hs] at hmem
    rcases List.mem_append.mp hmem with hmem | hmem
    · split at hmem
      · rename_i htop
        obtain rfl := List.mem_singleton.mp hmem
        exact ⟨hdepth htop, hP⟩
      · cases hmem
    · exact ih hs hmem
  | @group P opening closing inside text ho hc hP hinside _ ihinside ih =>
    intro s hs d hmem
    -- one level down nothing stands at the top, so of the group only its opening bracket does
    have hdeep : Scan.Outside { s with depth := s.depth + 1 } := hs
    have hnone : Scan.top { s with depth := s.depth + 1 } inside = [] :=
      List.eq_nil_iff_forall_not_mem.mpr fun e he => by
        have := (ihinside hdeep he).1
        simp at this
    have hgroup := Scan.top_group hs hc (hinside.run_eq hdeep) hnone text
    rw [Scan.top, Scan.step_opening hs ho, hgroup] at hmem
    split at hmem
    · rename_i htop
      rcases List.mem_cons.mp hmem with rfl | hmem
      · exact ⟨hdepth htop, hP⟩
      · exact ih hs hmem
    · exact ih hs hmem

/-! #### Building -/

theorem append (ha : Nested P a) (hb : Nested P b) : Nested P (a ++ b) := by
  induction ha with
  | nil => exact hb
  | char hc hP _ ih => exact .char hc hP (ih hb)
  | quoted content hP _ ih =>
    rw [List.append_assoc]
    exact .quoted content hP (ih hb)
  | group ho hc hP hinside _ _ ih =>
    rw [List.cons_append, List.append_assoc, List.cons_append]
    exact .group ho hc hP hinside (ih hb)

theorem mono (h : Nested P text) (hPQ : ∀ c, P c → Q c) : Nested Q text := by
  induction h generalizing Q with
  | nil => exact .nil
  | char hc hP _ ih => exact .char hc (hPQ _ hP) (ih hPQ)
  | quoted content hP _ ih => exact .quoted content (hPQ _ hP) (ih hPQ)
  | group ho hc hP hinside _ _ ih => exact .group ho hc (hPQ _ hP) hinside (ih hPQ)

/-- Text of plain characters. -/
theorem of_mem (h : ∀ c ∈ text, isPlain c = true ∧ P c) : Nested P text := by
  induction text with
  | nil => exact .nil
  | cons c cs ih =>
    obtain ⟨hc, hP⟩ := h c (List.mem_cons_self ..)
    exact .char hc hP (ih fun d hd => h d (List.mem_cons_of_mem _ hd))

theorem of_isNameChar (h : ∀ c ∈ text, isNameChar c = true)
    (hP : ∀ c, isNameChar c = true → P c) : Nested P text :=
  of_mem fun c hc => ⟨isPlain_of_isNameChar (h c hc), hP c (h c hc)⟩

theorem writeQuoted (content : List Char) (hP : P '"') :
    Nested P (Grammar.writeQuoted content) := by
  have h := Nested.quoted (P := P) content hP .nil
  rwa [List.append_nil] at h

/-- One group and nothing behind it. -/
theorem grouped {opening closing : Char} (ho : IsOpening opening) (hc : IsClosing closing)
    (hP : P opening) (h : Nested (fun _ => True) text) :
    Nested P (opening :: text ++ [closing]) :=
  .group ho hc hP h .nil

end Nested

/-! ### Cutting well-nested text -/

/-- Puts a text in front of the first piece. -/
def Pieces.growAll (text : List Char) (p : Pieces) : Pieces :=
  (text ++ p.1, p.2)

theorem Pieces.grow_growAll (c : Char) (text : List Char) (p : Pieces) :
    (p.growAll text).grow c = p.growAll (c :: text) := rfl

theorem isBalanced_of_nested {P : Char → Prop} {text : List Char} (h : Nested P text) :
    isBalanced text = true := by
  rw [isBalanced, h.run_eq Scan.outside_start]
  rfl

section Passing

variable {s : Scan} {text : List Char}

theorem splitTopFrom_append {sep : Char} (rest : List Char)
    (h : ∀ c ∈ s.top text, c ≠ sep) :
    splitTopFrom sep s (text ++ rest) = (splitTopFrom sep (s.run text) rest).growAll text := by
  induction text generalizing s with
  | nil => rfl
  | cons c cs ih =>
    have hcut : (s.atTop && c == sep) = false :=
      Scan.atTop_and_eq_false fun hc => beq_eq_false_iff_ne.mpr (h c hc)
    rw [List.cons_append, splitTopFrom, hcut,
      ih fun d hd => h d (Scan.mem_top_of_step hd)]
    rfl

theorem splitPartsFrom_append (rest : List Char) (h : ∀ c ∈ s.top text, c ≠ '[') :
    splitPartsFrom s (text ++ rest) = (splitPartsFrom (s.run text) rest).growAll text := by
  induction text generalizing s with
  | nil => rfl
  | cons c cs ih =>
    have hcut : (s.atTop && c == '[') = false :=
      Scan.atTop_and_eq_false fun hc => beq_eq_false_iff_ne.mpr (h c hc)
    rw [List.cons_append, splitPartsFrom, hcut,
      ih fun d hd => h d (Scan.mem_top_of_step hd)]
    rfl

theorem splitKeywordFrom_append {keyword : List Char} (rest : List Char)
    (h : ∀ c ∈ s.top text, isAsciiBlank c = false) :
    splitKeywordFrom keyword s 0 (text ++ rest) =
      (splitKeywordFrom keyword (s.run text) 0 rest).growAll text := by
  induction text generalizing s with
  | nil => rfl
  | cons c cs ih =>
    have hcut : (s.atTop && isAsciiBlank c) = false := Scan.atTop_and_eq_false (h c)
    rw [List.cons_append, splitKeywordFrom, hcut, Bool.false_and,
      ih fun d hd => h d (Scan.mem_top_of_step hd)]
    rfl

end Passing

namespace Nested

variable {text : List Char}

/-- A cut at a character passes over text that does not show it. -/
theorem splitTopFrom_append {sep : Char} (h : Nested (· ≠ sep) text) (rest : List Char) :
    splitTopFrom sep {} (text ++ rest) = (splitTopFrom sep {} rest).growAll text := by
  rw [Grammar.splitTopFrom_append rest fun c hc => (h.of_mem_top Scan.outside_start hc).2,
    h.run_eq Scan.outside_start]

/-- A cut at a keyword passes over text that shows no blank. -/
theorem splitKeywordFrom_append (h : Nested (fun c => isAsciiBlank c = false) text)
    (keyword rest : List Char) :
    splitKeywordFrom keyword {} 0 (text ++ rest) =
      (splitKeywordFrom keyword {} 0 rest).growAll text := by
  rw [Grammar.splitKeywordFrom_append rest fun c hc => (h.of_mem_top Scan.outside_start hc).2,
    h.run_eq Scan.outside_start]

end Nested

/-! ### Groups -/

theorem atTop_eq_false {s : Scan} {text : List Char} (hnone : s.top text = [])
    (hend : (s.run text).atTop = false) : s.atTop = false := by
  cases text with
  | nil => exact hend
  | cons c cs =>
    refine Bool.eq_false_iff.mpr fun htop => ?_
    have hmem := Scan.mem_top_cons htop c cs
    rw [hnone] at hmem
    cases hmem

/-- A group ends at the first bracket that leads back to the top level. -/
theorem closeGroup_append {closing : Char} (rest : List Char) : ∀ {text : List Char} {s : Scan},
    s.top text = [] → (s.run text).atTop = false →
      ((s.run text).step closing).atTop = true →
        closeGroup s (text ++ closing :: rest) = some (text, rest) := by
  have hswap : ∀ s : Scan, (s.depth == 0 && !s.quoted) = s.atTop := fun s => Bool.and_comm ..
  intro text
  induction text with
  | nil =>
    intro s _ _ hclose
    simp only [Scan.run_nil] at hclose
    simp only [List.nil_append, closeGroup, hswap, hclose, if_true]
  | cons c cs ih =>
    intro s hnone hend hclose
    have hnone' : (s.step c).top cs = [] :=
      List.eq_nil_iff_forall_not_mem.mpr fun d hd => by
        have := Scan.mem_top_of_step hd
        rw [hnone] at this
        cases this
    -- the scan is still inside behind this character, so the group does not end with it
    have hdeep : (s.step c).atTop = false := atTop_eq_false hnone' hend
    simp only [List.cons_append, closeGroup, hswap, hdeep, Bool.false_eq_true, if_false,
      ih hnone' hend hclose, Option.map_some]

/-- **A group is split off whole**, whatever it holds and whatever follows. -/
theorem splitGroup_of_balanced {opening closing : Char} {inside : List Char}
    (ho : IsOpening opening) (hc : IsClosing closing) (h : Balanced inside) (rest : List Char) :
    splitGroup (opening :: (inside ++ closing :: rest)) = some (inside, rest) := by
  have hdeep : Scan.Outside { depth := 1 } := ⟨rfl, rfl⟩
  have hopen : Scan.step {} opening = { depth := 1 } := Scan.step_opening Scan.outside_start ho
  have hclose : Scan.step { depth := 1 } closing = {} := Scan.step_closing Scan.outside_start hc
  have hrun := h.run_eq hdeep
  rw [splitGroup, hopen]
  refine closeGroup_append rest (h.top_eq_nil hdeep (Nat.succ_pos 0)) ?_ ?_
  · rw [hrun]
    rfl
  · rw [hrun, hclose]
    rfl

theorem splitGroup_append {opening closing : Char} {inside : List Char} (ho : IsOpening opening)
    (hc : IsClosing closing) (h : Nested (fun _ => True) inside) (rest : List Char) :
    splitGroup (opening :: (inside ++ closing :: rest)) = some (inside, rest) :=
  splitGroup_of_balanced ho hc h.balanced rest

theorem unwrapGroup_group {inside : List Char} (h : Nested (fun _ => True) inside) :
    unwrapGroup '(' ('(' :: inside ++ [')']) = some inside := by
  have hsplit := splitGroup_append (Or.inl rfl) (Or.inl rfl) h []
  have hhead : (('(' :: inside ++ [')']).head? == some '(') = true := beq_self_eq_true _
  rw [unwrapGroup, if_pos hhead, List.cons_append, hsplit]

theorem unwrapGroup_of_ne {opening c : Char} (h : c ≠ opening) (text : List Char) :
    unwrapGroup opening (c :: text) = none := by
  rw [unwrapGroup, if_neg (by simpa using h)]

end Grammar

end TableQuery
