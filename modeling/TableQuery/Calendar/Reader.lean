import TableQuery.Calendar.Moment
import TableQuery.Number.Decimal
import TableQuery.Text.Blank

/-!
# Reading dates

A text is read as a moment by the first of several forms that fits it: the exchange form with a
zone (`2024-01-01T10:20:30.5+02:00`), then four looser patterns in UTC, then a bare date. Numbers
of the exchange form have a fixed width; in the patterns they have a largest width, blanks may
stand in front of them, and a year with a sign may be of any length.

A bare date stands for a whole day: as a lower bound it is the first millisecond of the day
(`readDate?`), as an upper bound the last one (`readUpperDate?`).
-/

namespace TableQuery

namespace Calendar

/-! ### Patterns -/

/-- A number of a date or a time of day. -/
inductive Component where
  | year
  | month
  | day
  | hour
  | minute
  | second
deriving DecidableEq, Repr

/-- A step of a pattern: a number, a fixed character, any run of blanks, or an optional fraction
of a second. -/
inductive Step where
  | number (component : Component)
  | mark (c : Char)
  | blanks
  | fraction
deriving DecidableEq, Repr

/-- The numbers read so far; what a pattern does not name is zero. -/
def emptyMoment : Moment := ⟨⟨0, 0, 0⟩, 0, 0, 0, 0⟩

/-- Enters a number. Only a year can be negative. -/
def Component.enter (component : Component) (n : Int) (m : Moment) : Moment :=
  match component with
  | year => { m with date := { m.date with year := n } }
  | month => { m with date := { m.date with month := n.toNat } }
  | day => { m with date := { m.date with day := n.toNat } }
  | hour => { m with hour := n.toNat }
  | minute => { m with minute := n.toNat }
  | second => { m with second := n.toNat }

/-- The value of one or more digits, of which at most `width` are taken when there is a width. -/
def readDigits? (width : Option Nat) (text : List Char) : Option (Nat × List Char) :=
  let run := text.takeWhile Char.isDigit
  let digits := match width with
    | some w => run.take w
    | none => run
  if digits.isEmpty then none else some (Text.digitsValue digits, text.drop digits.length)

/-- The number of a component: a year has up to four digits, or any number of them after a sign;
everything else has up to two. -/
def readComponent? (component : Component) (text : List Char) : Option (Int × List Char) :=
  let text := Text.trimStart text
  match component, text with
  | .year, '-' :: rest => (readDigits? none rest).map fun r => (-(r.1 : Int), r.2)
  | .year, '+' :: rest => (readDigits? none rest).map fun r => ((r.1 : Int), r.2)
  | .year, text => (readDigits? (some 4) text).map fun r => ((r.1 : Int), r.2)
  | _, text => (readDigits? (some 2) text).map fun r => ((r.1 : Int), r.2)

/-- The milliseconds of the digits of a fraction: its first three digits. -/
def milliOfFraction (digits : List Char) : Nat :=
  Text.digitsValue ((digits ++ ['0', '0', '0']).take 3)

/-- An optional fraction: a point with at least one digit. -/
def readFraction? : List Char → Option (Nat × List Char)
  | '.' :: rest =>
    let (digits, rest) := Text.takeDigits rest
    if digits.isEmpty then none else some (milliOfFraction digits, rest)
  | text => some (0, text)

/-- Reads a whole text by a pattern. -/
def readPattern? : List Step → Moment → List Char → Option Moment
  | [], m, text => if text.isEmpty then some m else none
  | .number component :: steps, m, text => do
    let (n, rest) ← readComponent? component text
    readPattern? steps (component.enter n m) rest
  | .mark c :: steps, m, text =>
    match text with
    | d :: rest => if c == d then readPattern? steps m rest else none
    | [] => none
  | .blanks :: steps, m, text => readPattern? steps m (Text.trimStart text)
  | .fraction :: steps, m, text => do
    let (milli, rest) ← readFraction? text
    readPattern? steps { m with milli := milli } rest

/-- Year, month and day, with dashes. -/
def datePattern : List Step :=
  [.number .year, .mark '-', .number .month, .mark '-', .number .day]

/-- Hour and minute. -/
def minutePattern : List Step :=
  [.number .hour, .mark ':', .number .minute]

/-- Hour, minute and second, with an optional fraction. -/
def secondPattern : List Step :=
  minutePattern ++ [.mark ':', .number .second, .fraction]

/-- The patterns of a date with a time of day, in the order in which they are tried. -/
def momentPatterns : List (List Step) :=
  [datePattern ++ .blanks :: secondPattern,
   datePattern ++ .mark 'T' :: secondPattern,
   datePattern ++ .blanks :: minutePattern,
   datePattern ++ .mark 'T' :: minutePattern]

/-- The moment that a pattern finds, if there is such a moment. -/
def readMoment? (pattern : List Step) (text : List Char) : Option Moment :=
  (readPattern? pattern emptyMoment text).filter Moment.isValid

/-- A bare date, as the start of its day. -/
def readDay? (text : List Char) : Option Moment :=
  readMoment? datePattern text

/-! ### The exchange form -/

/-- A number of exactly `width` digits. -/
def readFixed? (width : Nat) (text : List Char) : Option (Nat × List Char) :=
  let digits := text.take width
  if digits.length == width && digits.all Char.isDigit then
    some (Text.digitsValue digits, text.drop width)
  else none

/-- A fixed character. -/
def readMark? (c : Char) : List Char → Option (List Char)
  | d :: rest => if c == d then some rest else none
  | [] => none

/-- The zone of a moment: `Z`, or a sign with hours and minutes, as the milliseconds by which the
zone is ahead of UTC. The sign may be the typographical minus. -/
def readZone? : List Char → Option (Int × List Char)
  | 'Z' :: rest | 'z' :: rest => some (0, rest)
  | c :: rest => do
    let sign : Int ← if c == '+' then some 1
      else if c == '-' || c == '\u2212' then some (-1)
      else none
    let (hours, rest) ← readFixed? 2 rest
    let rest ← readMark? ':' rest
    let (minutes, rest) ← readFixed? 2 rest
    if hours < 24 && minutes < 60 then
      some (sign * ((hours * 60 + minutes) * 60000 : Nat), rest)
    else none
  | [] => none

/-- A moment in the exchange form, as its place on the time line. -/
def readExchange? (text : List Char) : Option Int := do
  let (year, rest) ← readFixed? 4 text
  let rest ← readMark? '-' rest
  let (month, rest) ← readFixed? 2 rest
  let rest ← readMark? '-' rest
  let (day, rest) ← readFixed? 2 rest
  let rest ← match rest with
    | 'T' :: rest | 't' :: rest | ' ' :: rest => some rest
    | _ => none
  let (hour, rest) ← readFixed? 2 rest
  let rest ← readMark? ':' rest
  let (minute, rest) ← readFixed? 2 rest
  let rest ← readMark? ':' rest
  let (second, rest) ← readFixed? 2 rest
  let (milli, rest) ← readFraction? rest
  let (ahead, rest) ← readZone? rest
  let moment : Moment := ⟨⟨year, month, day⟩, hour, minute, second, milli⟩
  if rest.isEmpty && moment.isValid then some (moment.millis - ahead) else none

/-! ### Bounds -/

/-- The place on the time line that a text denotes, a bare date denoting the start of its day. -/
def readDate? (text : List Char) : Option Int :=
  let text := Text.trim text
  match readExchange? text with
  | some millis => some millis
  | none =>
    ((momentPatterns.findSome? fun pattern => readMoment? pattern text).or (readDay? text)).map
      Moment.millis

/-- As `readDate?`, but a bare date denotes the last millisecond of its day. -/
def readUpperDate? (text : List Char) : Option Int :=
  match readDay? (Text.trim text) with
  | some day => some (day.millis + (dayMillis - 1))
  | none => readDate? text

end Calendar

end TableQuery
