import TableQuery.Proofs.Number.ReadBack
import TableQuery.Proofs.Text.Trim
import TableQuery.Value.Coerce

/-!
# Numbers of a fixed width, and texts that are bare dates

The exchange form takes numbers of a fixed width and the patterns take them up to one;
on a run of digits of just that width the two read the same
(`TableQuery.Calendar.readFixed?_append`, `TableQuery.Calendar.readComponent?_append`).

The lower and the upper bound of a text are found in different orders: the upper bound
tries the bare date first, the lower bound last. They agree on which texts are dates since
nothing else reads a bare date. The exchange form wants a mark behind the day, where the
pattern of a bare date wants the end of the text, and every other pattern begins as this
one does and goes on where the text has ended
(`TableQuery.Calendar.readDate?_of_readDay?`).
-/

namespace TableQuery

namespace Text

theorem digitValue_le {c : Char} (h : c.isDigit = true) : digitValue c ≤ 9 := by
  have hrange := isDigit_iff.mp h
  have hzero : '0'.toNat = 48 := rfl
  rw [digitValue]
  omega

theorem digitsValue_lt {digits : List Char} (h : digits.all Char.isDigit = true) :
    digitsValue digits < 10 ^ digits.length := by
  induction digits with
  | nil => exact Nat.one_pos
  | cons c digits ih =>
    rw [List.all_cons, Bool.and_eq_true] at h
    have hhead : digitsValue [c] ≤ 9 := by
      simpa [digitsValue] using digitValue_le h.1
    have htail := ih h.2
    have hmul := Nat.mul_le_mul_right (10 ^ digits.length) hhead
    rw [← List.singleton_append, digitsValue_append, List.singleton_append, List.length_cons,
      Nat.pow_succ]
    omega

end Text

namespace Calendar

open Text

/-! ### Numbers -/

/-- The largest width of a number without a sign. -/
def Component.width : Component → Nat
  | year => 4
  | _ => 2

variable {width : Nat} {digits rest text : List Char}

/-- A run of so many digits. -/
def DigitRun (width : Nat) (digits : List Char) : Prop :=
  digits.all Char.isDigit = true ∧ digits.length = width

theorem DigitRun.isBlank_of_mem (h : DigitRun width digits) : ∀ c ∈ digits, isBlank c = false :=
  fun c hc => isBlank_of_isDigit (List.all_eq_true.mp h.1 c hc)

theorem DigitRun.solid (h : DigitRun width digits) (hpos : 0 < width) :
    StartsSolid digits ∧ EndsSolid digits := by
  have hne : digits ≠ [] := List.ne_nil_of_length_pos (h.2 ▸ hpos)
  exact ⟨startsSolid_of_mem hne h.isBlank_of_mem, endsSolid_of_mem hne h.isBlank_of_mem⟩

theorem readFixed?_append (h : DigitRun width digits) :
    readFixed? width (digits ++ rest) = some (digitsValue digits, rest) := by
  obtain ⟨hdigits, rfl⟩ := h
  rw [readFixed?, List.take_left, List.drop_left, hdigits, beq_self_eq_true, Bool.and_self,
    if_pos rfl]

/-- A number of a fixed width is a run of digits in front of the rest. -/
theorem eq_append_of_readFixed? {n : Nat} (h : readFixed? width text = some (n, rest)) :
    ∃ digits, DigitRun width digits ∧ text = digits ++ rest := by
  simp only [readFixed?, Bool.and_eq_true, beq_iff_eq, Option.ite_none_right_eq_some,
    Option.some.injEq, Prod.mk.injEq] at h
  obtain ⟨⟨hlength, hdigits⟩, -, rfl⟩ := h
  exact ⟨text.take width, ⟨hdigits, hlength⟩, (List.take_append_drop width text).symm⟩

theorem readMark?_cons (c : Char) (rest : List Char) : readMark? c (c :: rest) = some rest := by
  rw [readMark?, beq_self_eq_true, if_pos rfl]

theorem eq_cons_of_readMark? {c : Char} (h : readMark? c text = some rest) :
    text = c :: rest := by
  cases text with
  | nil => cases h
  | cons d text =>
    simp only [readMark?, beq_iff_eq, Option.ite_none_right_eq_some, Option.some.injEq] at h
    rw [h.1, h.2]

theorem readDigits?_append (h : DigitRun width digits) (hpos : 0 < width) :
    readDigits? (some width) (digits ++ rest) = some (digitsValue digits, rest) := by
  obtain ⟨hdigits, rfl⟩ := h
  have hrun : ((digits ++ rest).takeWhile Char.isDigit).take digits.length = digits := by
    rw [List.takeWhile_append_of_pos (List.all_eq_true.mp hdigits), List.take_left]
  have hne : digits.isEmpty = false := by
    rw [List.isEmpty_eq_false_iff, ← List.length_pos_iff]
    exact hpos
  simp only [readDigits?, hrun, hne, Bool.false_eq_true, if_false, List.drop_left]

/-- In front of a digit there is no blank and no sign. -/
theorem readComponent?_of_isDigit (component : Component) {c : Char} (hc : c.isDigit = true) :
    readComponent? component (c :: text) =
      (readDigits? (some component.width) (c :: text)).map fun r => ((r.1 : Int), r.2) := by
  have htrim : trimStart (c :: text) = c :: text :=
    trimStart_of_startsSolid ⟨c, text, rfl, isBlank_of_isDigit hc⟩
  cases component with
  | year =>
    simp only [readComponent?, htrim]
    split
    · rename_i heq
      cases (List.cons.inj heq).1
      cases hc
    · rename_i heq
      cases (List.cons.inj heq).1
      cases hc
    · rfl
    · contradiction
  | _ =>
    simp only [readComponent?, htrim]
    rfl

theorem readComponent?_append {component : Component} (h : DigitRun component.width digits) :
    readComponent? component (digits ++ rest) = some ((digitsValue digits : Int), rest) := by
  have hpos : 0 < component.width := by cases component <;> decide
  have hread : readDigits? (some component.width) (digits ++ rest) =
      some (digitsValue digits, rest) := readDigits?_append h hpos
  obtain ⟨c, cs, rfl⟩ := List.exists_cons_of_length_pos (h.2 ▸ hpos)
  have hc : c.isDigit = true := List.all_eq_true.mp h.1 c (List.mem_cons_self ..)
  rw [List.cons_append] at hread ⊢
  rw [readComponent?_of_isDigit component hc, hread]
  rfl

/-! ### Patterns -/

variable {p q : List Step} {m m' : Moment}

theorem readPattern?_number (component : Component) (h : DigitRun component.width digits) :
    readPattern? (.number component :: p) m (digits ++ rest) =
      readPattern? p (component.enter (digitsValue digits) m) rest := by
  rw [readPattern?, readComponent?_append h]
  rfl

theorem readPattern?_mark (c : Char) :
    readPattern? (.mark c :: p) m (c :: rest) = readPattern? p m rest := by
  rw [readPattern?, beq_self_eq_true, if_pos rfl]

/-- What a pattern reads as a whole leaves nothing for the steps behind it. -/
theorem readPattern?_append (h : readPattern? p m text = some m') :
    readPattern? (p ++ q) m text = readPattern? q m' [] := by
  induction p generalizing m text with
  | nil =>
    simp only [readPattern?, Option.ite_none_right_eq_some, Option.some.injEq,
      List.isEmpty_iff] at h
    obtain ⟨rfl, rfl⟩ := h
    rfl
  | cons step p ih =>
    rw [List.cons_append]
    cases step with
    | number component =>
      simp only [readPattern?, Option.bind_eq_bind, Option.bind_eq_some_iff] at h ⊢
      obtain ⟨⟨n, rest⟩, hread, h⟩ := h
      rw [hread]
      exact ih h
    | mark c =>
      cases text with
      | nil => cases h
      | cons d rest =>
        simp only [readPattern?, Option.ite_none_right_eq_some] at h ⊢
        rw [if_pos h.1]
        exact ih h.2
    | blanks => exact ih h
    | fraction =>
      simp only [readPattern?, Option.bind_eq_bind, Option.bind_eq_some_iff] at h ⊢
      obtain ⟨⟨milli, rest⟩, hread, h⟩ := h
      rw [hread]
      exact ih h

/-! ### Dates in front of a text -/

/-- A year, a month and a day in digits, with dashes between them. -/
structure DateDigits where
  year : List Char
  month : List Char
  day : List Char
  year_run : DigitRun 4 year
  month_run : DigitRun 2 month
  day_run : DigitRun 2 day

namespace DateDigits

def chars (d : DateDigits) : List Char :=
  d.year ++ '-' :: (d.month ++ '-' :: d.day)

/-- The date that the digits denote, whether it exists or not. -/
def date (d : DateDigits) : Date :=
  ⟨digitsValue d.year, digitsValue d.month, digitsValue d.day⟩

theorem chars_append (d : DateDigits) (rest : List Char) :
    d.chars ++ rest = d.year ++ '-' :: (d.month ++ '-' :: (d.day ++ rest)) := by
  simp only [chars, List.append_assoc, List.cons_append]

/-- Patterns read the date and go on behind it. -/
theorem readPattern?_date (d : DateDigits) (q : List Step) (rest : List Char) :
    readPattern? (datePattern ++ q) emptyMoment (d.chars ++ rest) =
      readPattern? q ⟨d.date, 0, 0, 0, 0⟩ rest := by
  rw [d.chars_append, datePattern, List.cons_append, readPattern?_number .year d.year_run,
    List.cons_append, readPattern?_mark, List.cons_append, readPattern?_number .month d.month_run,
    List.cons_append, readPattern?_mark, List.cons_append, readPattern?_number .day d.day_run]
  rfl

end DateDigits

/-- What the exchange form reads behind the date. -/
def readExchangeTime? (date : Date) (text : List Char) : Option Int := do
  let rest ← match text with
    | 'T' :: rest | 't' :: rest | ' ' :: rest => some rest
    | _ => none
  let (hour, rest) ← readFixed? 2 rest
  let rest ← readMark? ':' rest
  let (minute, rest) ← readFixed? 2 rest
  let rest ← readMark? ':' rest
  let (second, rest) ← readFixed? 2 rest
  let (milli, rest) ← readFraction? rest
  let (ahead, rest) ← readZone? rest
  let moment : Moment := ⟨date, hour, minute, second, milli⟩
  if rest.isEmpty && moment.isValid then some (moment.millis - ahead) else none

/-- The exchange form is a date with such a time behind it. -/
theorem readExchange?_eq (text : List Char) : readExchange? text =
    (readFixed? 4 text).bind fun year =>
      (readMark? '-' year.2).bind fun behindYear =>
        (readFixed? 2 behindYear).bind fun month =>
          (readMark? '-' month.2).bind fun behindMonth =>
            (readFixed? 2 behindMonth).bind fun day =>
              readExchangeTime? ⟨year.1, month.1, day.1⟩ day.2 :=
  rfl

theorem DateDigits.readExchange?_append (d : DateDigits) (rest : List Char) :
    readExchange? (d.chars ++ rest) = readExchangeTime? d.date rest := by
  simp only [d.chars_append, readExchange?_eq, readFixed?_append d.year_run,
    readFixed?_append d.month_run, readFixed?_append d.day_run, readMark?_cons, Option.bind_some]
  rfl

/-- The exchange form begins with a date, and something stands behind it. -/
theorem exists_of_readExchange? {millis : Int} (h : readExchange? text = some millis) :
    ∃ d : DateDigits, ∃ c rest, text = d.chars ++ c :: rest := by
  have hread := h
  simp only [readExchange?_eq, Option.bind_eq_some_iff] at h
  obtain ⟨⟨_, _⟩, hyear, _, hdash, ⟨_, _⟩, hmonth, _, hdash', ⟨_, rest⟩, hday, -⟩ := h
  obtain ⟨year, year_run, rfl⟩ := eq_append_of_readFixed? hyear
  cases eq_cons_of_readMark? hdash
  obtain ⟨month, month_run, rfl⟩ := eq_append_of_readFixed? hmonth
  cases eq_cons_of_readMark? hdash'
  obtain ⟨day, day_run, rfl⟩ := eq_append_of_readFixed? hday
  have hchars := DateDigits.chars_append ⟨year, month, day, year_run, month_run, day_run⟩ rest
  rw [← hchars, DateDigits.readExchange?_append] at hread
  cases rest with
  | nil => cases hread
  | cons c rest => exact ⟨_, c, rest, hchars.symm⟩

/-! ### Bare dates -/

theorem readPattern?_of_readDay? {day : Moment} (h : readDay? text = some day) :
    readPattern? datePattern emptyMoment text = some day := by
  rw [readDay?, readMoment?, Option.filter_eq_some_iff] at h
  exact h.1

theorem readExchange?_of_readDay? {day : Moment} (h : readDay? text = some day) :
    readExchange? text = none := by
  have hday := readPattern?_of_readDay? h
  refine Option.eq_none_iff_forall_ne_some.mpr fun millis hread => ?_
  obtain ⟨d, c, rest, rfl⟩ := exists_of_readExchange? hread
  have hrest := d.readPattern?_date [] (c :: rest)
  rw [List.append_nil, hday] at hrest
  cases hrest

theorem readMoment?_of_readDay? {day : Moment} (h : readDay? text = some day)
    {pattern : List Step} (hpattern : pattern ∈ momentPatterns) :
    readMoment? pattern text = none := by
  have hday := readPattern?_of_readDay? h
  simp only [momentPatterns, List.mem_cons, List.not_mem_nil, or_false] at hpattern
  rcases hpattern with rfl | rfl | rfl | rfl <;>
    rw [readMoment?, readPattern?_append hday] <;>
    rfl

/-- **Nothing else reads a bare date.** -/
theorem readDate?_of_readDay? {day : Moment} (h : readDay? (trim text) = some day) :
    readDate? text = some day.millis := by
  have hmoments : (momentPatterns.findSome? fun p => readMoment? p (trim text)) = none :=
    List.findSome?_eq_none_iff.mpr fun _ => readMoment?_of_readDay? h
  rw [readDate?, readExchange?_of_readDay? h, hmoments, h]
  rfl

/-- The upper bound of a text is the end of its day if it is a bare date, and else its lower
bound. -/
theorem readUpperDate?_eq (text : List Char) :
    readUpperDate? text = (readDate? text).map
      (· + if (readDay? (trim text)).isSome then dayMillis - 1 else 0) := by
  cases h : readDay? (trim text) with
  | none => simp [readUpperDate?, h]
  | some day => simp [readUpperDate?, h, readDate?_of_readDay? h]

end Calendar

end TableQuery
