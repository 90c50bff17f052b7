import TableQuery.Proofs.Grammar.Expressions
import TableQuery.Proofs.Json.Unambiguous

/-!
# Stages read back

Statements, stages and arguments are all cut from a longer text at a separator at the top
level and trimmed, and the printer joins them with that separator and blanks around it.
That the one undoes the other is said once, in
`TableQuery.Grammar.map_trim_splitTop_joinTexts`.

The values of arguments are told apart by their first characters: a string by its quote,
and of the rest an integer is tried before a double, so that it matters that no double is
written like an integer (`TableQuery.FloatLayout.readInt?_render`).
-/

namespace TableQuery

namespace Grammar

open Text

/-! ### Joined pieces -/

/-- Pieces are read one by one. -/
theorem mapM_eq_ok {ε α β γ : Type} {f : α → Except ε β} {g : α → γ} {k : β → γ} :
    ∀ {pieces : List α} {values : List β}, pieces.map g = values.map k →
      (∀ x ∈ values, ∀ p, g p = k x → f p = .ok x) → pieces.mapM f = .ok values := by
  intro pieces
  induction pieces with
  | nil =>
    intro values h _
    obtain rfl := List.map_eq_nil_iff.mp h.symm
    rfl
  | cons p pieces ih =>
    intro values h hread
    cases values with
    | nil => cases h
    | cons x values =>
      obtain ⟨hhead, htail⟩ := List.cons.inj h
      rw [List.mapM_cons, hread x (List.mem_cons_self ..) p hhead,
        ih htail fun y hy => hread y (List.mem_cons_of_mem _ hy)]
      rfl

/-- **Joined texts come apart again**: cut at the separator and trimmed, a text of
well-nested pieces that do not show the separator is these pieces. -/
theorem map_trim_splitTop_joinTexts {sep : Char} (hsep : isPlain sep = true) (hblank : sep ≠ ' ')
    (gap : List Char) (hgap : ∀ c ∈ gap, c = ' ') {ts : List (List Char)} (hne : ts ≠ [])
    (h : ∀ t ∈ ts, Nested (· ≠ sep) t ∧ StartsSolid t ∧ EndsSolid t) :
    (splitTop sep (joinTexts (gap ++ [sep, ' ']) ts)).toList.map trim = ts := by
  have hnested : ∀ {pad : List Char}, (∀ c ∈ pad, c = ' ') → Nested (· ≠ sep) pad := fun hpad =>
    .of_mem fun c hc => by
      obtain rfl := hpad c hc
      exact ⟨rfl, hblank.symm⟩
  have hisBlank : ∀ {pad : List Char}, (∀ c ∈ pad, c = ' ') → ∀ c ∈ pad, isBlank c = true :=
    fun hpad c hc => by
      obtain rfl := hpad c hc
      rfl
  -- behind a separator the next piece has a blank in front of it
  suffices hpad : ∀ pad : List Char, (∀ c ∈ pad, c = ' ') →
      (splitTop sep (pad ++ joinTexts (gap ++ [sep, ' ']) ts)).toList.map trim = ts from
    hpad [] fun c hc => by cases hc
  induction ts with
  | nil => exact absurd rfl hne
  | cons t ts ih =>
    intro pad hpad
    obtain ⟨ht, hstart, hend⟩ := h t (List.mem_cons_self ..)
    cases ts with
    | nil =>
      -- the last piece, with nothing behind it
      have hpass := ((hnested hpad).append ht).splitTopFrom_append []
      have htrim : trim (pad ++ t ++ []) = t :=
        trim_between (hisBlank hpad) (fun c hc => by cases hc) hstart hend
      rw [List.append_nil] at hpass htrim
      rw [joinTexts, splitTop, hpass]
      simp [splitTopFrom, Pieces.growAll, Pieces.toList, htrim]
    | cons u ts =>
      -- the cut falls behind the blanks that follow the piece
      have hpiece := ((hnested hpad).append ht).append (hnested hgap)
      have htrim := trim_between (hisBlank hpad) (hisBlank hgap) hstart hend
      have hrest := ih (List.cons_ne_nil _ _) (fun v hv => h v (List.mem_cons_of_mem _ hv)) [' ']
        fun c hc => List.mem_singleton.mp hc
      have hcut : (Scan.atTop {} && sep == sep) = true := by simp [Scan.atTop]
      have htext : pad ++ joinTexts (gap ++ [sep, ' ']) (t :: u :: ts) =
          pad ++ t ++ gap ++ sep :: ([' '] ++ joinTexts (gap ++ [sep, ' ']) (u :: ts)) := by
        simp [joinTexts_cons_cons]
      rw [htext, splitTop, hpiece.splitTopFrom_append, splitTopFrom, hcut, if_pos rfl,
        Scan.step_plain Scan.outside_start hsep]
      simp only [Pieces.growAll, Pieces.cut, Pieces.toList, List.append_nil, List.map_cons, htrim]
      exact congrArg _ hrest

/-! ### Values of arguments -/

/-- The written value of an argument. -/
def renderValue : Json → List Char
  | .str s => writeQuoted s.toList
  | value => value.render

/-- What a written value has to be like to be read back as an argument: the value comes
back, the text can be trimmed and cut at commas, and it does not look like a name with an
equals sign behind it. -/
structure ReadsAs (text : List Char) (value : Json) : Prop where
  read : readArgumentValue text = .ok value
  starts : StartsSolid text
  ends : EndsSolid text
  nested : Nested (· ≠ ',') text
  unnamed : (takeName text).1 = [] ∨ '=' ∉ text

theorem takeName_of_head {c : Char} {text : List Char} (hc : isNameChar c = false) :
    takeName (c :: text) = ([], c :: text) := by
  have hc' : ¬isNameChar c = true := by simp [hc]
  rw [takeName, List.takeWhile_cons_of_neg hc', List.dropWhile_cons_of_neg hc']

theorem readsAs_str (s : String) : ReadsAs (writeQuoted s.toList) (.str s) where
  read := by
    have hread := readQuoted_writeQuoted s.toList []
    rw [List.append_nil] at hread
    rw [writeQuoted, List.cons_append] at hread ⊢
    simp only [readArgumentValue, hread, ok_bind, trim_nil, List.isEmpty_nil, if_true,
      String.ofList_toList]
    rfl
  starts := startsSolid_writeQuoted _
  ends := endsSolid_writeQuoted _
  nested := .writeQuoted _ (by decide)
  unnamed := Or.inl (by rw [writeQuoted, List.cons_append, takeName_of_head rfl])

theorem readsAs_bool (b : Bool) : ReadsAs (Json.bool b).render (.bool b) := by
  cases b
  · exact {
      read := rfl
      starts := ⟨'f', _, rfl, rfl⟩
      ends := ⟨'e', "fals".toList, rfl, rfl⟩
      nested := .of_mem (by decide)
      unnamed := Or.inr (by decide) }
  · exact {
      read := rfl
      starts := ⟨'t', _, rfl, rfl⟩
      ends := ⟨'e', "tru".toList, rfl, rfl⟩
      nested := .of_mem (by decide)
      unnamed := Or.inr (by decide) }

/-! #### Numbers -/

open FloatLayout (isNumberChar isBlank_of_isNumberChar)

theorem of_isNumberChar {c : Char} (h : isNumberChar c = true) :
    isPlain c = true ∧ c ≠ ',' ∧ c ≠ '=' ∧ c ≠ '"' := by
  simp only [isNumberChar, Bool.or_eq_true, beq_iff_eq] at h
  rcases h with (((h | rfl) | rfl) | rfl) | rfl
  · have hname := isNameChar_of_isDigit h
    exact ⟨isPlain_of_isNameChar hname, ne_of_isNameChar hname rfl, ne_of_isNameChar hname rfl,
      ne_of_isNameChar hname rfl⟩
  all_goals decide

/-- A text of a number begins with a digit or a sign, unlike the words for booleans. -/
def BeginsNumber (text : List Char) : Prop :=
  ∃ c rest, text = c :: rest ∧ (c.isDigit = true ∨ c = '-')

/-- What is not a string and no boolean word is tried as an integer and as a double. -/
theorem readArgumentValue_number {text : List Char} (h : BeginsNumber text) :
    readArgumentValue text =
      match (readInt? text).filter fun n => decide (-(2 ^ 63) ≤ n) && decide (n < 2 ^ 63) with
      | some n => .ok (.num (.int n))
      | none =>
        match (readDouble? text).bind Binary64.finite? with
        | some x => .ok (.num (.float x))
        | none => .ok (.str (String.ofList text)) := by
  obtain ⟨c, rest, rfl, hc⟩ := h
  have hlower : c.toLower = c := by
    rcases hc with hc | rfl
    · exact toLower_of_isDigit hc
    · rfl
  -- what no number begins with is neither the first character nor its lowered form
  have hne : ∀ d, d.isDigit = false → d ≠ '-' → c ≠ d := by
    rintro d hd hdash rfl
    rcases hc with hc | hc
    · rw [hd] at hc
      cases hc
    · exact hdash hc
  have hword : ∀ d ds, d.isDigit = false → d ≠ '-' → d.toLower = d →
      sameIgnoringCase (c :: rest) (d :: ds) = false := by
    intro d ds hd hdash hd'
    refine Bool.eq_false_iff.mpr fun h => hne d hd hdash ?_
    have hhead := (List.cons.inj (sameIgnoringCase_iff.mp h)).1
    rwa [hlower, hd'] at hhead
  have htrue : sameIgnoringCase (c :: rest) "true".toList = false :=
    hword 't' "rue".toList rfl (by decide) rfl
  have hfalse : sameIgnoringCase (c :: rest) "false".toList = false :=
    hword 'f' "alse".toList rfl (by decide) rfl
  unfold readArgumentValue
  split
  · rename_i heq
    cases heq
  · rename_i heq
    exact absurd (List.cons.inj heq).1 (hne '"' rfl (by decide))
  · rw [htrue, hfalse]
    rfl

theorem readsAs_number {text : List Char} {value : Json} (hbegins : BeginsNumber text)
    (hall : text.all isNumberChar = true) (hread : readArgumentValue text = .ok value) :
    ReadsAs text value := by
  have hmem : ∀ c ∈ text, isNumberChar c = true := List.all_eq_true.mp hall
  have hne : text ≠ [] := by
    obtain ⟨c, rest, rfl, -⟩ := hbegins
    exact List.cons_ne_nil _ _
  have hblank : ∀ c ∈ text, isBlank c = false := fun c hc => isBlank_of_isNumberChar (hmem c hc)
  exact {
    read := hread
    starts := startsSolid_of_mem hne hblank
    ends := endsSolid_of_mem hne hblank
    nested := .of_mem fun c hc =>
      have hnumber := of_isNumberChar (hmem c hc)
      ⟨hnumber.1, hnumber.2.1⟩
    unnamed := Or.inr fun hequals => (of_isNumberChar (hmem _ hequals)).2.2.1 rfl }

theorem readsAs_int {n : Int} (hlow : -(2 ^ 63) ≤ n) (hhigh : n < 2 ^ 63) :
    ReadsAs (Json.num (.int n)).render (.num (.int n)) := by
  have hrender : (Json.num (.int n)).render = intDigits n := rfl
  have hbegins : BeginsNumber (intDigits n) := Json.head_renderNumber (.int n)
  have hall : (intDigits n).all isNumberChar = true := by
    have hnumber := FloatLayout.all_isNumberChar_of_isDigit (all_isDigit_natDigits n.natAbs)
    rw [intDigits]
    split
    · rw [List.all_cons, hnumber]
      rfl
    · exact hnumber
  rw [hrender]
  refine readsAs_number hbegins hall ?_
  rw [readArgumentValue_number hbegins, readInt?_intDigits, Option.filter_some,
    decide_eq_true hlow, decide_eq_true hhigh]
  rfl

theorem readsAs_float (x : FiniteDouble) :
    ReadsAs (Json.num (.float x)).render (.num (.float x)) := by
  have hrender : (Json.num (.float x)).render = Json.floatLayout.render x := rfl
  have hbegins : BeginsNumber (Json.floatLayout.render x) := Json.head_renderNumber (.float x)
  rw [hrender]
  refine readsAs_number hbegins (FloatLayout.all_isNumberChar_render _ x) ?_
  rw [readArgumentValue_number hbegins, FloatLayout.readInt?_render rfl,
    FloatLayout.readDouble?_render]
  rfl

/-- **The value of an argument reads back.** -/
theorem readsAs_renderValue {value : Json} (h : value.IsArgument) :
    ReadsAs (renderValue value) value := by
  cases value with
  | str s => exact readsAs_str s
  | bool b => exact readsAs_bool b
  | num n =>
    cases n with
    | int n => exact readsAs_int h.1 h.2
    | float x => exact readsAs_float x
  | null => exact h.elim
  | arr items => exact h.elim
  | obj fields => exact h.elim

/-! ### Arguments -/

/-- The written name of an argument. -/
def renderArgumentName (name : Option String) : List Char :=
  (name.map fun n => n.toList ++ ['=']).getD []

theorem render_argument (a : Argument) :
    a.render = renderArgumentName a.name ++ renderValue a.value := by
  obtain ⟨name, value⟩ := a
  cases value <;> rfl

/-- A text that does not look like a name with an equals sign behind it has no name. -/
theorem readArgument_unnamed {text : List Char} {value : Json} (h : ReadsAs text value) :
    readArgument text = .ok ⟨none, value⟩ := by
  have hempty : text.isEmpty = false := by
    obtain ⟨c, rest, rfl, -⟩ := h.starts
    rfl
  have hread := h.read
  rw [readArgument, hempty, if_neg Bool.false_ne_true, takeName]
  dsimp only
  split
  · rename_i c cs rest hname hequals
    rcases h.unnamed with hnone | hnone
    · rw [takeName, hname] at hnone
      cases hnone
    · -- an equals sign behind the name would be one of the text
      have hmem : '=' ∈ trimStart (text.dropWhile isNameChar) := by
        rw [hequals]
        exact List.mem_cons_self ..
      have hrest : '=' ∈ text.dropWhile isNameChar := List.dropWhile_subset _ hmem
      exact absurd (List.dropWhile_subset _ hrest) hnone
  · rw [hread]
    rfl

/-- A name in front of a value. -/
theorem readArgument_named {name : String} {text : List Char} {value : Json} (hname : IsName name)
    (h : ReadsAs text value) :
    readArgument (name.toList ++ '=' :: text) = .ok ⟨some name, value⟩ := by
  obtain ⟨hne, hall⟩ := isName_iff.mp hname
  obtain ⟨c, cs, hcs⟩ := List.exists_cons_of_ne_nil hne
  have hends : EndsName ('=' :: text) := endsName_cons rfl text
  have hempty : (name.toList ++ '=' :: text).isEmpty = false := by simp
  have hstart : trimStart ('=' :: text) = '=' :: text :=
    trimStart_of_startsSolid ⟨'=', text, rfl, rfl⟩
  have hread := h.read
  have hback : String.ofList (c :: cs) = name := by rw [← hcs, String.ofList_toList]
  rw [readArgument, hempty, if_neg Bool.false_ne_true, takeName_append_of_endsName hall hends]
  simp only [hstart, hcs, trim_of_solid h.starts h.ends, hread, ok_bind, hback]
  rfl

/-- **An argument reads back.** -/
theorem readArgument_render {a : Argument} (h : a.Printable) : readArgument a.render = .ok a := by
  obtain ⟨name, value⟩ := a
  have hvalue := readsAs_renderValue h.2
  rw [render_argument]
  cases name with
  | none => exact readArgument_unnamed hvalue
  | some name =>
    have hread := readArgument_named (h.1 name rfl) hvalue
    rw [← hread]
    simp [renderArgumentName]

/-- A written argument can be cut at commas and trimmed. -/
theorem solid_render_argument {a : Argument} (h : a.Printable) :
    Nested (· ≠ ',') a.render ∧ StartsSolid a.render ∧ EndsSolid a.render := by
  obtain ⟨name, value⟩ := a
  have hvalue := readsAs_renderValue h.2
  rw [render_argument]
  cases name with
  | none => exact ⟨hvalue.nested, hvalue.starts, hvalue.ends⟩
  | some name =>
    have hname := h.1 name rfl
    have hnested : Nested (· ≠ ',') name.toList :=
      .of_isNameChar (isName_iff.mp hname).2 fun c hc => ne_of_isNameChar hc rfl
    exact ⟨(hnested.append (.of_mem (by decide))).append hvalue.nested,
      ((startsSolid_name hname).append _).append _, hvalue.ends.append _⟩

/-! ### Stages -/

/-- The written arguments of a stage. -/
def renderArguments : List Argument → List Char
  | [] => []
  | arguments => '(' :: joinTexts [',', ' '] (arguments.map Argument.render) ++ [')']

/-- The written stage without the bar in front of it. -/
def stageText (s : StageCall) : List Char :=
  '@' :: s.name.toList ++ renderArguments s.arguments

theorem render_stage (s : StageCall) : s.render = [' ', '|', ' '] ++ stageText s := by
  obtain ⟨name, arguments⟩ := s
  cases arguments <;> simp [StageCall.render, stageText, renderArguments]

theorem nested_arguments {arguments : List Argument} (h : ∀ a ∈ arguments, a.Printable) :
    Nested (fun _ => True) (joinTexts [',', ' '] (arguments.map Argument.render)) := by
  refine nested_joinTexts (.of_mem (by decide)) fun t ht => ?_
  obtain ⟨a, ha, rfl⟩ := List.mem_map.mp ht
  exact (solid_render_argument (h a ha)).1.mono fun _ _ => trivial

/-- The arguments of a stage read back. -/
theorem readArguments_render {arguments : List Argument} (hne : arguments ≠ [])
    (h : ∀ a ∈ arguments, a.Printable) :
    ((splitTop ',' (joinTexts [',', ' '] (arguments.map Argument.render))).toList.mapM
      fun a => readArgument (trim a)) = .ok arguments := by
  have hne' : arguments.map Argument.render ≠ [] := by simpa using hne
  have hsolid : ∀ t ∈ arguments.map Argument.render,
      Nested (· ≠ ',') t ∧ StartsSolid t ∧ EndsSolid t := by
    intro t ht
    obtain ⟨a, ha, rfl⟩ := List.mem_map.mp ht
    exact solid_render_argument (h a ha)
  have hsplit := map_trim_splitTop_joinTexts rfl (by decide) [] (by simp) hne' hsolid
  refine mapM_eq_ok hsplit fun a ha p hp => ?_
  rw [hp]
  exact readArgument_render (h a ha)

/-- **A stage reads back.** -/
theorem readStage_stageText {s : StageCall} (h : s.Printable) {text : List Char}
    (htrim : trim text = stageText s) : readStage text = .ok s := by
  obtain ⟨name, arguments⟩ := s
  have hempty : name.toList.isEmpty = false := by simpa using h.ne_nil
  have hhead : (name.toList.head? == some '.') = false := by simpa using h.head
  have hlast : (name.toList.getLast? == some '.') = false := by simpa using h.last
  have hends : ∀ c ∈ (renderArguments arguments).head?, isStageNameChar c = false := by
    cases arguments with
    | nil => rintro c ⟨⟩
    | cons a rest =>
      rintro c ⟨⟩
      rfl
  have htake := takeWhile_append_of_head? h.isStageNameChar hends
  have hdrop := dropWhile_append_of_head? h.isStageNameChar hends
  have htext : stageText ⟨name, arguments⟩ = '@' :: (name.toList ++ renderArguments arguments) :=
    rfl
  rw [readStage, htrim, htext]
  simp only [htake, hdrop, hempty, hhead, hlast, Bool.or_false, Bool.false_eq_true, if_false,
    String.ofList_toList]
  cases arguments with
  | nil => rfl
  | cons a rest =>
    have harguments : ∀ b ∈ a :: rest, b.Printable := h.arguments
    have hnested := nested_arguments harguments
    have hread := readArguments_render (List.cons_ne_nil a rest) harguments
    -- parentheses with nothing but blanks in them would stand for no arguments
    have hinner : (trim (joinTexts [',', ' '] ((a :: rest).map Argument.render))).isEmpty =
        false := by
      have hstart : StartsSolid (joinTexts [',', ' '] ((a :: rest).map Argument.render)) :=
        startsSolid_joinTexts _ (solid_render_argument (harguments a (List.mem_cons_self ..))).2.1
      have hend : EndsSolid (joinTexts [',', ' '] ((a :: rest).map Argument.render)) := by
        refine endsSolid_joinTexts _ (List.cons_ne_nil _ _) fun t ht => ?_
        obtain ⟨b, hb, rfl⟩ := List.mem_map.mp ht
        exact (solid_render_argument (harguments b hb)).2.2
      rw [trim_of_solid hstart hend]
      obtain ⟨c, cs, hcs, -⟩ := hstart
      rw [hcs]
      rfl
    have hbehind : trim (renderArguments (a :: rest)) =
        '(' :: joinTexts [',', ' '] ((a :: rest).map Argument.render) ++ [')'] :=
      trim_of_solid ⟨'(', _, rfl, rfl⟩ ⟨')', '(' :: joinTexts [',', ' '] _, rfl, rfl⟩
    rw [hbehind]
    generalize joinTexts [',', ' '] ((a :: rest).map Argument.render) = inner at *
    split
    · rename_i heq
      cases heq
    · rw [unwrapGroup_group hnested]
      simp only [hinner, Bool.false_eq_true, if_false, hread, ok_bind]
      rfl

/-- A written stage can be cut at semicolons and bars, and trimmed. -/
theorem solid_stageText {s : StageCall} (h : s.Printable) {P : Char → Prop} (hat : P '@')
    (hparen : P '(') (hname : ∀ c, isStageNameChar c = true → P c) :
    Nested P (stageText s) ∧ StartsSolid (stageText s) ∧ EndsSolid (stageText s) := by
  obtain ⟨name, arguments⟩ := s
  have hplain : ∀ c, isStageNameChar c = true → isPlain c = true ∧ isBlank c = false := by
    intro c hc
    rw [isStageNameChar, Bool.or_eq_true, beq_iff_eq] at hc
    rcases hc with hc | rfl
    · exact ⟨isPlain_of_isNameChar hc, isBlank_of_isNameChar hc⟩
    · exact ⟨rfl, rfl⟩
  have hnameNested : Nested P name.toList := .of_mem fun c hc =>
    ⟨(hplain c (h.isStageNameChar c hc)).1, hname c (h.isStageNameChar c hc)⟩
  have hfront : Nested P ('@' :: name.toList) := .char rfl hat hnameNested
  refine ⟨?_, ⟨'@', _, rfl, rfl⟩, ?_⟩
  · refine hfront.append ?_
    cases arguments with
    | nil => exact .nil
    | cons a rest =>
      exact .grouped (Or.inl rfl) (Or.inl rfl) hparen (nested_arguments h.arguments)
  · cases arguments with
    | nil =>
      have hend : EndsSolid name.toList :=
        endsSolid_of_mem h.ne_nil fun c hc => (hplain c (h.isStageNameChar c hc)).2
      rw [stageText, renderArguments, List.append_nil]
      exact hend.append ['@']
    | cons a rest =>
      have hend : EndsSolid (renderArguments (a :: rest)) :=
        ⟨')', '(' :: joinTexts [',', ' '] ((a :: rest).map Argument.render), rfl, rfl⟩
      exact hend.append _

end Grammar

end TableQuery
