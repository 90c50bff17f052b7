import TableQuery.Proofs.Calendar.DayNumbers
import TableQuery.Proofs.Calendar.Reading

/-!
# A bare date covers its day

A bare date is read as an interval: from the first millisecond of its day as a lower bound
to the last one as an upper bound. The moments written with that date, behind a `T` or a
blank and with or without the mark of UTC, are those of the interval and of no other
(`TableQuery.Text.bare_date_covers_day`).

Each of the written forms is read by one form only. With a zone it is the exchange form; a
text without one gets there as far as the zone, and then the first pattern reads what has a
blank behind the date and the second what has a `T`. All of them end up with the same
moment (`TableQuery.Calendar.readDate?_instant`), and however many digits a fraction has,
its first three are at most `999`. What is left is arithmetic on the time line, where the
days lie side by side, before 1970 as after it.
-/

namespace TableQuery

namespace Calendar

open Text

/-! ### Padded numbers -/

/-- A number with zeros in front of it, up to a width. -/
def padded (width n : Nat) : List Char :=
  List.replicate (width - (natDigits n).length) '0' ++ natDigits n

theorem digitsValue_padded (width n : Nat) : digitsValue (padded width n) = n := by
  rw [padded, digitsValue_append, digitsValue_zeros, Nat.zero_mul, Nat.zero_add,
    digitsValue_natDigits]

theorem digitRun_padded {width n : Nat} (hpos : 0 < width) (h : n < 10 ^ width) :
    DigitRun width (padded width n) := by
  refine ⟨by rw [padded, List.all_append, all_isDigit_zeros, all_isDigit_natDigits,
    Bool.and_self], ?_⟩
  have hlength : (natDigits n).length ≤ width :=
    (Nat.length_toDigits_le_iff (by decide) hpos).mpr h
  rw [padded, List.length_append, List.length_replicate]
  omega

/-! ### Written days -/

/-- A day whose year is written with four digits. -/
structure CivilDay where
  date : Date
  isValid : date.isValid = true
  year_nonneg : 0 ≤ date.year
  year_le : date.year ≤ 9999

namespace CivilDay

theorem month_lt (d : CivilDay) : d.date.month < 10 ^ 2 :=
  Nat.lt_of_le_of_lt (Date.month_of_isValid d.isValid).2 (by decide)

theorem day_lt (d : CivilDay) : d.date.day < 10 ^ 2 := by
  have hday := (Date.isValid_iff.mp d.isValid).2.2
  have hmonth : Date.daysInMonth d.date.year d.date.month ≤ 31 := by
    unfold Date.daysInMonth
    repeat' split
    all_goals decide
  omega

/-- The date as `YYYY-MM-DD`. -/
def digits (d : CivilDay) : DateDigits where
  year := padded 4 d.date.year.toNat
  month := padded 2 d.date.month
  day := padded 2 d.date.day
  year_run := digitRun_padded (by decide) (by have := d.year_le; omega)
  month_run := digitRun_padded (by decide) d.month_lt
  day_run := digitRun_padded (by decide) d.day_lt

theorem date_digits (d : CivilDay) : d.digits.date = d.date := by
  have hyear := d.year_nonneg
  simp only [DateDigits.date, digits, digitsValue_padded, Int.toNat_of_nonneg hyear]

def text (d : CivilDay) : String :=
  String.ofList d.digits.chars

/-- The first millisecond of the day. -/
def start (d : CivilDay) : Int :=
  d.date.dayNumber * dayMillis

end CivilDay

/-! ### Written times of day -/

/-- A time of day down to the second, and the digits of a fraction of the second, if any. -/
structure ClockTime where
  hour : Nat
  minute : Nat
  second : Nat
  fraction : List Char
  hour_lt : hour < 24
  minute_lt : minute < 60
  second_lt : second < 60
  fraction_digits : fraction.all Char.isDigit = true

/-- The digits of a fraction behind a point; no point without digits. -/
def fractionChars (digits : List Char) : List Char :=
  if digits.isEmpty then [] else '.' :: digits

theorem milliOfFraction_lt {digits : List Char} (h : digits.all Char.isDigit = true) :
    milliOfFraction digits < 1000 := by
  have hall : ((digits ++ ['0', '0', '0']).take 3).all Char.isDigit = true := by
    refine all_take ?_ 3
    rw [List.all_append, h]
    rfl
  have hlength : ((digits ++ ['0', '0', '0']).take 3).length = 3 := by simp
  have hlt := digitsValue_lt hall
  rwa [hlength] at hlt

theorem readFraction?_fractionChars {digits rest : List Char}
    (h : digits.all Char.isDigit = true) (hrest : EndsDigits rest)
    (hpoint : rest.head? ≠ some '.') :
    readFraction? (fractionChars digits ++ rest) = some (milliOfFraction digits, rest) := by
  cases digits with
  | nil =>
    rw [fractionChars, List.isEmpty_nil, if_pos rfl, List.nil_append]
    unfold readFraction?
    split
    · exact absurd rfl hpoint
    · rfl
  | cons c cs =>
    rw [fractionChars, List.isEmpty_cons, if_neg Bool.false_ne_true, List.cons_append]
    simp only [readFraction?, takeDigits_append h hrest, List.isEmpty_cons, Bool.false_eq_true,
      if_false]

namespace ClockTime

/-- The time of day as `hh:mm:ss`, with its fraction. -/
def chars (t : ClockTime) : List Char :=
  padded 2 t.hour ++ ':' :: (padded 2 t.minute ++ ':' ::
    (padded 2 t.second ++ fractionChars t.fraction))

theorem hour_run (t : ClockTime) : DigitRun 2 (padded 2 t.hour) :=
  digitRun_padded (by decide) (Nat.lt_trans t.hour_lt (by decide))

theorem minute_run (t : ClockTime) : DigitRun 2 (padded 2 t.minute) :=
  digitRun_padded (by decide) (Nat.lt_trans t.minute_lt (by decide))

theorem second_run (t : ClockTime) : DigitRun 2 (padded 2 t.second) :=
  digitRun_padded (by decide) (Nat.lt_trans t.second_lt (by decide))

/-- The moment at which a day has this time. -/
def moment (t : ClockTime) (date : Date) : Moment :=
  ⟨date, t.hour, t.minute, t.second, milliOfFraction t.fraction⟩

theorem isValid_moment (t : ClockTime) {date : Date} (h : date.isValid = true) :
    (t.moment date).isValid = true := by
  simp [Moment.isValid, moment, h, t.hour_lt, t.minute_lt, Nat.le_of_lt t.second_lt]

theorem isBlank_of_mem_chars (t : ClockTime) : ∀ c ∈ t.chars, isBlank c = false := by
  have hfraction : ∀ c ∈ fractionChars t.fraction, isBlank c = false := by
    intro c hc
    rw [fractionChars] at hc
    split at hc
    · cases hc
    · rcases List.mem_cons.mp hc with rfl | hc
      · rfl
      · exact isBlank_of_isDigit (List.all_eq_true.mp t.fraction_digits c hc)
  intro c hc
  simp only [chars, List.mem_append, List.mem_cons] at hc
  rcases hc with hc | rfl | hc | rfl | hc | hc
  · exact t.hour_run.isBlank_of_mem c hc
  · rfl
  · exact t.minute_run.isBlank_of_mem c hc
  · rfl
  · exact t.second_run.isBlank_of_mem c hc
  · exact hfraction c hc

theorem chars_append (t : ClockTime) (rest : List Char) :
    t.chars ++ rest = padded 2 t.hour ++ ':' :: (padded 2 t.minute ++ ':' ::
      (padded 2 t.second ++ (fractionChars t.fraction ++ rest))) := by
  simp only [chars, List.append_assoc, List.cons_append]

/-- The pattern of a time of day reads it as a whole. -/
theorem readPattern?_chars (t : ClockTime) (date : Date) :
    readPattern? secondPattern ⟨date, 0, 0, 0, 0⟩ t.chars = some (t.moment date) := by
  have hfraction : readFraction? (fractionChars t.fraction ++ []) =
      some (milliOfFraction t.fraction, []) :=
    readFraction?_fractionChars t.fraction_digits (fun c hc => by cases hc) (by simp)
  rw [← List.append_nil t.chars, t.chars_append]
  simp only [secondPattern, minutePattern, List.cons_append, List.nil_append]
  rw [readPattern?_number .hour t.hour_run, readPattern?_mark,
    readPattern?_number .minute t.minute_run, readPattern?_mark,
    readPattern?_number .second t.second_run, readPattern?, hfraction]
  simp only [digitsValue_padded]
  rfl

end ClockTime

/-! ### Written moments -/

/-- What stands between a date and a time of day. -/
inductive Separator where
  | letter
  | blank

def Separator.char : Separator → Char
  | letter => 'T'
  | blank => ' '

/-- The mark of UTC, or nothing. -/
def zoneChars (marked : Bool) : List Char :=
  if marked then ['Z'] else []

namespace CivilDay

/-- A time of a day, as it is written. -/
def charsAt (d : CivilDay) (separator : Separator) (t : ClockTime) (marked : Bool) : List Char :=
  d.digits.chars ++ separator.char :: (t.chars ++ zoneChars marked)

variable (d : CivilDay) (separator : Separator) (t : ClockTime) (marked : Bool)

theorem startsSolid_chars : StartsSolid d.digits.chars :=
  (d.digits.year_run.solid (by decide)).1.append _

theorem trim_charsAt : trim (d.charsAt separator t marked) = d.charsAt separator t marked := by
  refine trim_of_solid (d.startsSolid_chars.append _) ?_
  have hend : EndsSolid (t.chars ++ zoneChars marked) := by
    refine endsSolid_of_mem (by simp [ClockTime.chars]) fun c hc => ?_
    rcases List.mem_append.mp hc with hc | hc
    · exact t.isBlank_of_mem_chars c hc
    · cases marked
      · cases hc
      · cases List.mem_singleton.mp hc
        rfl
  rw [charsAt, ← List.singleton_append, ← List.append_assoc]
  exact hend.append _

/-- The exchange form reads the moment if the zone is written. -/
theorem readExchange?_charsAt : readExchange? (d.charsAt separator t marked) =
    if marked then some (t.moment d.date).millis else none := by
  have hfraction : readFraction? (fractionChars t.fraction ++ zoneChars marked) =
      some (milliOfFraction t.fraction, zoneChars marked) := by
    refine readFraction?_fractionChars t.fraction_digits ?_ ?_
    · cases marked <;> rintro c ⟨⟩
      rfl
    · cases marked <;> simp [zoneChars]
  have hvalid := t.isValid_moment d.isValid
  rw [charsAt, DateDigits.readExchange?_append, date_digits, t.chars_append]
  cases separator <;>
    simp only [readExchangeTime?, Separator.char, readFixed?_append t.hour_run,
      readFixed?_append t.minute_run, readFixed?_append t.second_run, readMark?_cons, hfraction,
      Option.bind_eq_bind, Option.bind_some, digitsValue_padded] <;>
    cases marked
  · rfl
  · exact (if_pos hvalid).trans (congrArg some (Int.sub_zero _))
  · rfl
  · exact (if_pos hvalid).trans (congrArg some (Int.sub_zero _))

theorem readMoment?_date (q : List Step) (rest : List Char) :
    readMoment? (datePattern ++ q) (d.digits.chars ++ rest) =
      (readPattern? q ⟨d.date, 0, 0, 0, 0⟩ rest).filter Moment.isValid := by
  rw [readMoment?, DateDigits.readPattern?_date, date_digits]

/-- Without a zone the first two patterns read the moment, each behind its separator. -/
theorem findSome?_readMoment?_charsAt :
    (momentPatterns.findSome? fun p => readMoment? p (d.charsAt separator t false)) =
      some (t.moment d.date) := by
  have hmoment : (some (t.moment d.date)).filter Moment.isValid = some (t.moment d.date) :=
    Option.filter_eq_some_iff.mpr ⟨rfl, t.isValid_moment d.isValid⟩
  have hchars : t.chars ++ zoneChars false = t.chars := List.append_nil _
  rw [charsAt, hchars, momentPatterns]
  cases separator with
  | blank =>
    have hsolid : StartsSolid t.chars :=
      startsSolid_of_mem (by simp [ClockTime.chars]) t.isBlank_of_mem_chars
    rw [List.findSome?_cons, d.readMoment?_date, Separator.char, readPattern?,
      trimStart_cons_of_isBlank rfl, trimStart_of_startsSolid hsolid, t.readPattern?_chars,
      hmoment]
  | letter =>
    -- the first pattern wants an hour where the letter stands
    have hhour : readPattern? (.blanks :: secondPattern) ⟨d.date, 0, 0, 0, 0⟩ ('T' :: t.chars) =
        none := rfl
    rw [List.findSome?_cons, d.readMoment?_date, Separator.char, hhour, Option.filter_none,
      List.findSome?_cons, d.readMoment?_date, readPattern?_mark, t.readPattern?_chars, hmoment]

/-- What stands behind a date keeps it from being a bare one. -/
theorem readDay?_charsAt : readDay? (d.charsAt separator t marked) = none := by
  have hrest := d.digits.readPattern?_date [] (separator.char :: (t.chars ++ zoneChars marked))
  rw [List.append_nil] at hrest
  rw [readDay?, readMoment?, charsAt, hrest]
  rfl

/-- **A written moment is read as the moment that it is.** -/
theorem readDate?_charsAt :
    readDate? (d.charsAt separator t marked) = some (t.moment d.date).millis := by
  rw [readDate?, d.trim_charsAt, d.readExchange?_charsAt]
  cases marked with
  | true => rfl
  | false =>
    rw [d.findSome?_readMoment?_charsAt]
    rfl

theorem readDay?_chars : readDay? d.digits.chars = some ⟨d.date, 0, 0, 0, 0⟩ := by
  have hrest := d.digits.readPattern?_date [] []
  rw [List.append_nil, List.append_nil, d.date_digits] at hrest
  rw [readDay?, readMoment?, hrest]
  exact Option.filter_eq_some_iff.mpr ⟨rfl, by simp [Moment.isValid, d.isValid]⟩

theorem trim_chars : trim d.digits.chars = d.digits.chars := by
  have hend : EndsSolid d.digits.day := (d.digits.day_run.solid (by decide)).2
  refine trim_of_solid d.startsSolid_chars ?_
  exact (((hend.append ['-']).append d.digits.month).append ['-']).append d.digits.year

/-- A bare date as a lower bound is the start of its day. -/
theorem date?_text : Text.date? d.text = some d.start := by
  have hday : readDay? (trim d.digits.chars) = some ⟨d.date, 0, 0, 0, 0⟩ := by
    rw [d.trim_chars, d.readDay?_chars]
  rw [Text.date?, text, String.toList_ofList, readDate?_of_readDay? hday]
  simp [Moment.millis, Moment.millisOfDay, start]

/-- As an upper bound it is the last millisecond before the next day. -/
theorem upperDate?_text : Text.upperDate? d.text = some (d.start + (dayMillis - 1)) := by
  have hdate := d.date?_text
  rw [Text.date?, text, String.toList_ofList] at hdate
  rw [Text.upperDate?, text, String.toList_ofList, readUpperDate?_eq, hdate, d.trim_chars,
    d.readDay?_chars]
  rfl

/-- The day at a time, as a text. -/
def textAt : String :=
  String.ofList (d.charsAt separator t marked)

theorem date?_textAt :
    Text.date? (d.textAt separator t marked) = some (t.moment d.date).millis := by
  rw [Text.date?, textAt, String.toList_ofList, readDate?_charsAt]

/-- A moment is its own lower and upper bound. -/
theorem upperDate?_textAt :
    Text.upperDate? (d.textAt separator t marked) = some (t.moment d.date).millis := by
  rw [Text.upperDate?, textAt, String.toList_ofList, readUpperDate?_eq, readDate?_charsAt,
    trim_charsAt, readDay?_charsAt]
  simp

theorem millisOfDay_moment : ((t.moment d.date).millisOfDay : Int) < dayMillis :=
  Moment.millisOfDay_lt t.hour_lt t.minute_lt t.second_lt
    (milliOfFraction_lt t.fraction_digits)

end CivilDay

end Calendar

namespace Text

open Calendar

/-- Every text that has a lower bound has an upper one, and the other way round. -/
theorem isSome_date? (text : String) : (date? text).isSome = (upperDate? text).isSome := by
  rw [date?, upperDate?, readUpperDate?_eq, Option.isSome_map]

theorem le_of_upperDate? {text : String} {lower upper : Int} (hlower : date? text = some lower)
    (hupper : upperDate? text = some upper) : lower ≤ upper := by
  rw [date?] at hlower
  rw [upperDate?, readUpperDate?_eq, hlower, Option.map_some, Option.some.injEq] at hupper
  rw [← hupper]
  split
  · simp only [dayMillis]
    omega
  · omega

/-- **A bare date covers its day.** A text has a lower bound if and only if it has an upper one,
and these are in order. For a day written `YYYY-MM-DD` they are the ends of the day; a time of
that day, however it is written, lies between them and outside the bounds of every other day. -/
theorem bare_date_covers_day :
    (∀ text : String, (date? text).isSome = (upperDate? text).isSome ∧
      ∀ lower upper, date? text = some lower → upperDate? text = some upper → lower ≤ upper) ∧
    ∀ d : CivilDay, ∃ lower upper, date? d.text = some lower ∧ upperDate? d.text = some upper ∧
      upper - lower = 86399999 ∧
      ∀ separator t marked, ∃ instant,
        date? (d.textAt separator t marked) = some instant ∧
        upperDate? (d.textAt separator t marked) = some instant ∧
        lower ≤ instant ∧ instant ≤ upper ∧
        ∀ e : CivilDay, e.date ≠ d.date → ∃ lower' upper',
          date? e.text = some lower' ∧ upperDate? e.text = some upper' ∧
          (instant < lower' ∨ upper' < instant) := by
  refine ⟨fun text => ⟨isSome_date? text, fun lower upper => le_of_upperDate?⟩, fun d => ?_⟩
  refine ⟨_, _, d.date?_text, d.upperDate?_text, ?_, fun separator t marked => ?_⟩
  · simp only [dayMillis]
    omega
  have hday := d.millisOfDay_moment t
  obtain ⟨hlower, hupper⟩ := Moment.millis_bounds hday
  refine ⟨_, d.date?_textAt separator t marked, d.upperDate?_textAt separator t marked, hlower,
    hupper, fun e hne => ⟨_, _, e.date?_text, e.upperDate?_text, ?_⟩⟩
  exact Moment.outside_of_ne hday d.isValid e.isValid hne

/-- The end of February in the year 0, which is a leap year: the last moments of the month are
before the first of the next. -/
theorem bare_date_covers_leap_day :
    ∃ lower upper instant lower' upper', date? "0000-02-29" = some lower ∧
      upperDate? "0000-02-29" = some upper ∧ upper - lower = 86399999 ∧
      date? "0000-02-29 23:59:59.99999999999" = some instant ∧ lower ≤ instant ∧
      instant ≤ upper ∧ date? "0000-03-01" = some lower' ∧ upperDate? "0000-03-01" = some upper' ∧
      (instant < lower' ∨ upper' < instant) := by
  let d : CivilDay := ⟨⟨0, 2, 29⟩, by decide, by decide, by decide⟩
  let e : CivilDay := ⟨⟨0, 3, 1⟩, by decide, by decide, by decide⟩
  let t : ClockTime := ⟨23, 59, 59, "99999999999".toList, by decide, by decide, by decide, by decide⟩
  have hd : d.text = "0000-02-29" := by decide
  have he : e.text = "0000-03-01" := by decide
  have ht : d.textAt .blank t false = "0000-02-29 23:59:59.99999999999" := by decide
  obtain ⟨lower, upper, hlower, hupper, hlength, hmoments⟩ := bare_date_covers_day.2 d
  obtain ⟨instant, hinstant, -, hle, hle', hothers⟩ := hmoments .blank t false
  obtain ⟨lower', upper', hlower', hupper', houtside⟩ := hothers e (by decide)
  rw [hd] at hlower hupper
  rw [he] at hlower' hupper'
  rw [ht] at hinstant
  exact ⟨lower, upper, instant, lower', upper', hlower, hupper, hlength, hinstant, hle, hle',
    hlower', hupper', houtside⟩

end Text

end TableQuery
