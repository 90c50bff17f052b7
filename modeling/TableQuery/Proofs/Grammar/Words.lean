import Mathlib.Data.List.Basic
import TableQuery.Proofs.Grammar.Nesting
import TableQuery.Proofs.Text.Trim

/-!
# Words and keywords

Printed expressions are *words* with single blanks between them: a
`TableQuery.Grammar.Word` is well-nested text without a separating blank at the top
level, so a whole group in parentheses is one word. Keywords are found by comparing
characters, without regard to where a word ends; but a keyword consists of name
characters and has a blank behind it, and therefore what is found is a word
(`TableQuery.Grammar.keyword_prefix`).

Cutting at a keyword is thus cutting a list of words. What the readers of the
connectives need is that one more operand behind the keyword adds one more piece
(`TableQuery.Grammar.splitKeyword_unwords_append`).
-/

namespace TableQuery

namespace Grammar

open Text

/-! ### Words -/

/-- A word: well-nested text without a separating blank at the top level. -/
structure Word (text : List Char) : Prop where
  nested : Nested (fun c => isAsciiBlank c = false) text
  ne_nil : text ≠ []

/-- A group is a word, whatever stands in it. -/
theorem Word.group {inside : List Char} (h : Nested (fun _ => True) inside) :
    Word ('(' :: inside ++ [')']) :=
  ⟨.grouped (Or.inl rfl) (Or.inl rfl) rfl h, List.cons_ne_nil _ _⟩

theorem isAsciiBlank_of_isNameChar {c : Char} (h : isNameChar c = true) :
    isAsciiBlank c = false := by
  refine Bool.eq_false_iff.mpr fun hblank => ?_
  have := isBlank_of_isAsciiBlank hblank
  rw [isBlank_of_isNameChar h] at this
  cases this

theorem Word.of_mem {text : List Char} (hne : text ≠ [])
    (h : ∀ c ∈ text, isPlain c = true ∧ isAsciiBlank c = false) : Word text :=
  ⟨.of_mem h, hne⟩

theorem Word.of_isNameChar {text : List Char} (hne : text ≠ [])
    (h : ∀ c ∈ text, isNameChar c = true) : Word text :=
  ⟨.of_isNameChar h fun _ => isAsciiBlank_of_isNameChar, hne⟩

/-- Words with a blank in front of each. -/
def spaced (words : List (List Char)) : List Char :=
  words.flatMap fun w => ' ' :: w

/-- Words with a blank between them. -/
def unwords : List (List Char) → List Char
  | [] => []
  | w :: ws => w ++ spaced ws

@[simp] theorem spaced_nil : spaced [] = [] := rfl

theorem spaced_cons (w : List Char) (ws : List (List Char)) :
    spaced (w :: ws) = ' ' :: unwords (w :: ws) := rfl

theorem spaced_append (vs ws : List (List Char)) : spaced (vs ++ ws) = spaced vs ++ spaced ws :=
  List.flatMap_append

theorem unwords_append {vs ws : List (List Char)} (hv : vs ≠ []) :
    unwords (vs ++ ws) = unwords vs ++ spaced ws := by
  obtain ⟨v, vs, rfl⟩ := List.exists_cons_of_ne_nil hv
  rw [List.cons_append, unwords, unwords, spaced_append, List.append_assoc]

theorem spaced_of_ne_nil {ws : List (List Char)} (h : ws ≠ []) :
    spaced ws = ' ' :: unwords ws := by
  obtain ⟨w, ws, rfl⟩ := List.exists_cons_of_ne_nil h
  rfl

theorem nested_spaced {P : Char → Prop} {ws : List (List Char)} (hblank : P ' ')
    (h : ∀ w ∈ ws, Nested P w) : Nested P (spaced ws) := by
  induction ws with
  | nil => exact .nil
  | cons w ws ih =>
    have hw := h w (List.mem_cons_self ..)
    exact .char rfl hblank (hw.append (ih fun v hv => h v (List.mem_cons_of_mem _ hv)))

/-- A text of words is well nested. -/
theorem nested_unwords {ws : List (List Char)} (h : ∀ w ∈ ws, Word w) :
    Nested (fun _ => True) (unwords ws) := by
  have hall : ∀ w ∈ ws, Nested (fun _ => True) w := fun w hw =>
    (h w hw).nested.mono fun _ _ => trivial
  cases ws with
  | nil => exact .nil
  | cons w ws =>
    exact (hall w (List.mem_cons_self ..)).append
      (nested_spaced trivial fun v hv => hall v (List.mem_cons_of_mem _ hv))

/-! ### Finding keywords -/

/-- The characters of a keyword. -/
def IsKeyword (keyword : List Char) : Prop :=
  ∀ c ∈ keyword, isNameChar c = true

instance (keyword : List Char) : Decidable (IsKeyword keyword) :=
  inferInstanceAs (Decidable (∀ c ∈ keyword, isNameChar c = true))

/-- Nothing, or a blank and more: what may stand behind a word. -/
def EndsWord (rest : List Char) : Prop :=
  ∀ c ∈ rest.head?, c = ' '

theorem endsWord_spaced (ws : List (List Char)) : EndsWord (spaced ws) := by
  cases ws with
  | nil => intro c hc; cases hc
  | cons w ws => intro c hc; exact (Option.some.inj hc).symm

variable {keyword w rest : List Char}

/-- **A keyword is found as a word or as a part of one**: if a word and what follows it
begin like a keyword, the word is the keyword, or the keyword is followed by one more
character of the word, which is not a separating blank. -/
theorem keyword_prefix (hkey : IsKeyword keyword)
    (hw : Nested (fun c => isAsciiBlank c = false) w) (hrest : EndsWord rest)
    (h : sameIgnoringCase ((w ++ rest).take keyword.length) keyword = true) :
    (sameIgnoringCase w keyword = true ∧ w.length = keyword.length) ∨
      ∃ front c behind, w = front ++ c :: behind ∧ front.length = keyword.length ∧
        isAsciiBlank c = false := by
  have hname := isNameChar_of_sameIgnoringCase h hkey
  have hlen := length_of_sameIgnoringCase h
  rcases Nat.lt_trichotomy w.length keyword.length with hlt | heq | hgt
  · -- the keyword would reach over the blank behind the word
    cases rest with
    | nil =>
      simp only [List.append_nil, List.length_take] at hlen
      omega
    | cons c cs =>
      obtain rfl : c = ' ' := hrest c rfl
      obtain ⟨n, hn⟩ : ∃ n, keyword.length = w.length + (n + 1) :=
        ⟨keyword.length - w.length - 1, by omega⟩
      have hmem : ' ' ∈ (w ++ ' ' :: cs).take keyword.length := by
        rw [hn, List.take_length_add_append, List.take_succ_cons]
        exact List.mem_append_right _ (List.mem_cons_self ..)
      exact absurd (hname ' ' hmem) (by decide)
  · -- the word is as long as the keyword
    left
    rw [← heq, List.take_left] at h
    exact ⟨h, heq⟩
  · -- the keyword is the beginning of the word
    right
    have htake : (w ++ rest).take keyword.length = w.take keyword.length :=
      List.take_append_of_le_length (Nat.le_of_lt hgt)
    rw [htake] at hname
    have hne : w.drop keyword.length ≠ [] := by simp; omega
    obtain ⟨c, behind, hdrop⟩ := List.exists_cons_of_ne_nil hne
    have hsplit : w = w.take keyword.length ++ c :: behind := by
      rw [← hdrop, List.take_append_drop]
    refine ⟨_, c, behind, hsplit, by rw [List.length_take]; omega, ?_⟩
    -- behind the name characters the scan is still at the top level
    have hfront : Nested (fun c => isAsciiBlank c = false) (w.take keyword.length) :=
      .of_isNameChar hname fun _ => isAsciiBlank_of_isNameChar
    have hmem : c ∈ Scan.top {} w := by
      rw [hsplit, Scan.top_append, hfront.run_eq Scan.outside_start]
      exact List.mem_append_right _ (Scan.mem_top_cons rfl c behind)
    exact (hw.of_mem_top Scan.outside_start hmem).2

/-- Where a keyword starts at a word, with something behind it, the word is the keyword. -/
theorem startsKeyword_append (hkey : IsKeyword keyword) (hw : Word w) (hrest : EndsWord rest) :
    startsKeyword keyword (w ++ rest) = (sameIgnoringCase w keyword && !rest.isEmpty) := by
  refine Bool.eq_iff_iff.mpr ⟨fun h => ?_, fun h => ?_⟩
  · rw [startsKeyword, Bool.and_eq_true] at h
    rcases keyword_prefix hkey hw.nested hrest h.1 with
      ⟨hsame, hlen⟩ | ⟨front, c, behind, hw', hlen, hc⟩
    · have hrest' := h.2
      rw [← hlen, List.drop_left] at hrest'
      rw [hsame, Bool.true_and]
      cases rest with
      | nil => cases hrest'
      | cons c cs => rfl
    · have hblank := h.2
      rw [hw', ← hlen, List.append_assoc, List.drop_left] at hblank
      simp [hc] at hblank
  · rw [Bool.and_eq_true] at h
    have hlen := length_of_sameIgnoringCase h.1
    rw [startsKeyword, ← hlen, List.take_left, List.drop_left, h.1, Bool.true_and]
    cases rest with
    | nil => simp at h
    | cons c cs =>
      obtain rfl : c = ' ' := hrest c rfl
      rfl

/-- A keyword is taken off the front of a text exactly if it is the first word. -/
theorem stripKeyword_append {keyword : String} (hkey : IsKeyword keyword.toList) (hw : Word w)
    (hrest : EndsWord rest) :
    stripKeyword keyword (w ++ rest) =
      if sameIgnoringCase w keyword.toList then some (trimStart rest) else none := by
  unfold stripKeyword
  extract_lets word behind
  by_cases hsame : sameIgnoringCase w word = true
  · have hlen := length_of_sameIgnoringCase hsame
    have hbehind : behind = rest := by
      rw [show behind = (w ++ rest).drop word.length from rfl, ← hlen, List.drop_left]
    rw [if_pos hsame, hbehind, ← hlen, List.take_left, if_pos hsame]
    cases rest with
    | nil => rfl
    | cons c cs =>
      obtain rfl : c = ' ' := hrest c rfl
      rfl
  · rw [if_neg hsame]
    split
    · rename_i htake
      rcases keyword_prefix hkey hw.nested hrest htake with
        ⟨hsame', -⟩ | ⟨front, c, cs, hw', hlen, hc⟩
      · exact absurd hsame' hsame
      · have hbehind : behind = c :: (cs ++ rest) := by
          rw [show behind = (w ++ rest).drop word.length from rfl, hw', ← hlen,
            List.append_assoc, List.drop_left, List.cons_append]
        rw [hbehind]
        simp [hc]
    · rfl

/-! ### Cutting at keywords -/

theorem splitKeywordFrom_skip (text rest : List Char) : ∀ s : Scan,
    splitKeywordFrom keyword s text.length (text ++ rest) =
      splitKeywordFrom keyword (s.run text) 0 rest := by
  induction text with
  | nil => intro s; rfl
  | cons c cs ih => intro s; exact ih (s.step c)

/-- What is left of a text of words behind its first: cut at the keyword if the first
word is the keyword and not the last. -/
theorem splitKeywordFrom_spaced_cons (hkey : IsKeyword keyword) (hw : Word w)
    (ws : List (List Char)) :
    splitKeywordFrom keyword {} 0 (spaced (w :: ws)) =
      if sameIgnoringCase w keyword && !ws.isEmpty then
        (splitKeywordFrom keyword {} 0 (spaced ws)).cut
      else (splitKeywordFrom keyword {} 0 (spaced ws)).growAll (' ' :: w) := by
  have hstart := startsKeyword_append hkey hw (endsWord_spaced ws)
  have hempty : (spaced ws).isEmpty = ws.isEmpty := by cases ws <;> rfl
  rw [hempty] at hstart
  -- the blank in front of a word stands at the top level, where keywords are looked for
  have hrun : Scan.run {} w = {} := hw.nested.run_eq Scan.outside_start
  have hstep : Scan.step {} ' ' = {} := rfl
  have htop : (Scan.atTop {} && isAsciiBlank ' ') = true := rfl
  rw [spaced_cons, unwords, splitKeywordFrom, htop, Bool.true_and, hstart, hstep]
  split
  · rename_i hcut
    rw [Bool.and_eq_true] at hcut
    -- what belongs to the keyword is skipped, and the scan behind it is where it was
    rw [← length_of_sameIgnoringCase hcut.1, splitKeywordFrom_skip, hrun]
  · rw [hw.nested.splitKeywordFrom_append, Pieces.grow_growAll]

theorem splitKeyword_unwords_cons {keyword : String} (hw : Word w) (ws : List (List Char)) :
    splitKeyword keyword (unwords (w :: ws)) =
      (splitKeywordFrom keyword.toList {} 0 (spaced ws)).growAll w := by
  rw [splitKeyword, unwords, hw.nested.splitKeywordFrom_append]

section Free

variable {keyword : String} {vs ws : List (List Char)}

/-- Words among which the keyword does not occur. -/
def Free (keyword : String) (ws : List (List Char)) : Prop :=
  ∀ w ∈ ws, sameIgnoringCase w keyword.toList = false

theorem splitKeywordFrom_spaced_of_free (hkey : IsKeyword keyword.toList)
    (hws : ∀ w ∈ ws, Word w) (hfree : Free keyword ws) :
    splitKeywordFrom keyword.toList {} 0 (spaced ws) = (spaced ws, []) := by
  induction ws with
  | nil => rfl
  | cons w ws ih =>
    rw [splitKeywordFrom_spaced_cons hkey (hws w (List.mem_cons_self ..)),
      hfree w (List.mem_cons_self ..), Bool.false_and,
      ih (fun v hv => hws v (List.mem_cons_of_mem _ hv))
        fun v hv => hfree v (List.mem_cons_of_mem _ hv)]
    rfl

/-- Words without the keyword are one piece. -/
theorem splitKeyword_unwords_of_free (hkey : IsKeyword keyword.toList)
    (hws : ∀ w ∈ ws, Word w) (hfree : Free keyword ws) :
    splitKeyword keyword (unwords ws) = (unwords ws, []) := by
  cases ws with
  | nil => rfl
  | cons w ws =>
    rw [splitKeyword_unwords_cons (hws w (List.mem_cons_self ..)),
      splitKeywordFrom_spaced_of_free hkey (fun v hv => hws v (List.mem_cons_of_mem _ hv))
        fun v hv => hfree v (List.mem_cons_of_mem _ hv)]
    rfl

theorem splitKeywordFrom_spaced_append (hkey : IsKeyword keyword.toList)
    (hws : ∀ w ∈ ws, Word w) (hlast : ∀ w ∈ ws.getLast?, sameIgnoringCase w keyword.toList = false)
    (hvs : ∀ v ∈ vs, Word v) (hne : vs ≠ []) (hfree : Free keyword vs)
    (hword : Word keyword.toList) :
    splitKeywordFrom keyword.toList {} 0 (spaced (ws ++ keyword.toList :: vs)) =
      ((splitKeywordFrom keyword.toList {} 0 (spaced ws)).1,
        (splitKeywordFrom keyword.toList {} 0 (spaced ws)).2 ++ [spaced vs]) := by
  induction ws with
  | nil =>
    have hne' : vs.isEmpty = false := by simp [hne]
    rw [List.nil_append, splitKeywordFrom_spaced_cons hkey hword, sameIgnoringCase_self, hne',
      splitKeywordFrom_spaced_of_free hkey hvs hfree]
    rfl
  | cons w ws ih =>
    have hw := hws w (List.mem_cons_self ..)
    have hmore : (ws ++ keyword.toList :: vs).isEmpty = false := by simp
    have hstep := ih (fun v hv => hws v (List.mem_cons_of_mem _ hv)) fun v hv =>
      hlast v (List.mem_getLast?_cons hv)
    rw [List.cons_append, splitKeywordFrom_spaced_cons hkey hw, hmore,
      splitKeywordFrom_spaced_cons hkey hw, hstep]
    by_cases hsame : sameIgnoringCase w keyword.toList = true
    · -- a keyword is not the last word, so both texts are cut here
      have hmore' : ws.isEmpty = false := by
        cases ws with
        | nil => exact absurd hsame (by rw [hlast w rfl]; simp)
        | cons u us => rfl
      rw [hsame, hmore']
      rfl
    · rw [Bool.eq_false_iff.mpr hsame]
      rfl

/-- **One more operand is one more piece**: words behind a keyword come out as the last
piece, with the blank in front of them, and the pieces before are those of the words in
front of the keyword. -/
theorem splitKeyword_unwords_append (hkey : IsKeyword keyword.toList)
    (hws : ∀ w ∈ ws, Word w) (hne : ws ≠ [])
    (hlast : ∀ w ∈ ws.getLast?, sameIgnoringCase w keyword.toList = false)
    (hvs : ∀ v ∈ vs, Word v) (hne' : vs ≠ []) (hfree : Free keyword vs)
    (hword : Word keyword.toList) :
    splitKeyword keyword (unwords (ws ++ keyword.toList :: vs)) =
      ((splitKeyword keyword (unwords ws)).1,
        (splitKeyword keyword (unwords ws)).2 ++ [spaced vs]) := by
  obtain ⟨w, ws, rfl⟩ := List.exists_cons_of_ne_nil hne
  have hw := hws w (List.mem_cons_self ..)
  have hrest := splitKeywordFrom_spaced_append hkey
    (fun v hv => hws v (List.mem_cons_of_mem _ hv))
    (fun v hv => hlast v (List.mem_getLast?_cons hv)) hvs hne' hfree hword
  rw [List.cons_append, splitKeyword_unwords_cons hw, splitKeyword_unwords_cons hw, hrest]
  rfl

end Free

end Grammar

end TableQuery
