import TableQuery.Proofs.Number.Rounding
import TableQuery.Proofs.Text.Characters

/-!
# The text of a number reads back

Writing a number and reading the text again gives that number: an integer from its
digits (`TableQuery.Text.readInt?_intDigits`), and a finite double from any layout
(`TableQuery.FloatLayout.readDouble?_render`).

A layout moves the digits of the shortest decimal around a point or an exponent and
may put zeros on either side of them. What is read is therefore not the decimal that
was written but one that differs from it by zeros, which is where
`TableQuery.Decimal.toBinary64_shift` comes in.
-/

namespace TableQuery

namespace Text

/-! ### Runs of digits -/

theorem digitsValue_eq_ofDigitChars (digits : List Char) :
    digitsValue digits = Nat.ofDigitChars 10 digits 0 := by
  rw [Nat.ofDigitChars_eq_foldl]
  rfl

theorem digitsValue_append (a b : List Char) :
    digitsValue (a ++ b) = digitsValue a * 10 ^ b.length + digitsValue b := by
  simp only [digitsValue_eq_ofDigitChars]
  rw [Nat.ofDigitChars_append, Nat.ofDigitChars_eq_ofDigitChars_zero, Nat.mul_comm]

theorem digitsValue_zeros (n : Nat) : digitsValue (List.replicate n '0') = 0 := by
  rw [digitsValue_eq_ofDigitChars, Nat.ofDigitChars_replicate_zero, Nat.mul_zero]

theorem digitsValue_append_zeros (digits : List Char) (n : Nat) :
    digitsValue (digits ++ List.replicate n '0') = digitsValue digits * 10 ^ n := by
  rw [digitsValue_append, digitsValue_zeros, List.length_replicate, Nat.add_zero]

theorem digitsValue_natDigits (n : Nat) : digitsValue (natDigits n) = n := by
  rw [digitsValue_eq_ofDigitChars]
  exact Nat.ofDigitChars_ten_toDigits

theorem isDigit_of_mem_natDigits {n : Nat} {c : Char} (h : c ∈ natDigits n) : c.isDigit = true :=
  Nat.isDigit_of_mem_toDigits (by decide) (by decide) h

theorem natDigits_ne_nil (n : Nat) : natDigits n ≠ [] :=
  Nat.toDigits_ne_nil

theorem all_isDigit_natDigits (n : Nat) : (natDigits n).all Char.isDigit = true :=
  List.all_eq_true.mpr fun _ h => isDigit_of_mem_natDigits h

theorem all_isDigit_zeros (n : Nat) : (List.replicate n '0').all Char.isDigit = true :=
  List.all_eq_true.mpr fun c hc => by
    rw [List.eq_of_mem_replicate hc]
    rfl

/-- A class that holds all characters of a text holds those of its parts. -/
theorem all_take {p : Char → Bool} {text : List Char} (h : text.all p = true) (n : Nat) :
    (text.take n).all p = true :=
  List.all_eq_true.mpr fun c hc => List.all_eq_true.mp h c (List.mem_of_mem_take hc)

theorem all_drop {p : Char → Bool} {text : List Char} (h : text.all p = true) (n : Nat) :
    (text.drop n).all p = true :=
  List.all_eq_true.mpr fun c hc => List.all_eq_true.mp h c (List.mem_of_mem_drop hc)

/-- A text that does not go on with a digit. -/
def EndsDigits (rest : List Char) : Prop :=
  ∀ c ∈ rest.head?, c.isDigit = false

theorem endsDigits_cons {c : Char} (hc : c.isDigit = false) (rest : List Char) :
    EndsDigits (c :: rest) := by
  rintro d ⟨⟩
  exact hc

/-- A run of digits is taken off the front as a whole. -/
theorem takeDigits_append {digits rest : List Char} (hdigits : digits.all Char.isDigit = true)
    (hrest : EndsDigits rest) : takeDigits (digits ++ rest) = (digits, rest) := by
  have hall : ∀ c ∈ digits, c.isDigit = true := List.all_eq_true.mp hdigits
  rw [takeDigits, takeWhile_append_of_head? hall hrest, dropWhile_append_of_head? hall hrest]

/-! ### Signs and words -/

theorem takeSign_dash (text : List Char) : takeSign ('-' :: text) = (true, text) := rfl

theorem takeSign_plus (text : List Char) : takeSign ('+' :: text) = (false, text) := rfl

theorem takeSign_of_isDigit {c : Char} {text : List Char} (hc : c.isDigit = true) :
    takeSign (c :: text) = (false, c :: text) := by
  unfold takeSign
  split
  · rename_i h
    obtain ⟨rfl, rfl⟩ := List.cons.inj h
    cases hc
  · rename_i h
    obtain ⟨rfl, rfl⟩ := List.cons.inj h
    cases hc
  · rfl

theorem takeSign_natDigits (n : Nat) : takeSign (natDigits n) = (false, natDigits n) := by
  obtain ⟨c, cs, hcs⟩ := List.exists_cons_of_ne_nil (natDigits_ne_nil n)
  have hc : c.isDigit = true := isDigit_of_mem_natDigits (hcs ▸ List.mem_cons_self ..)
  rw [hcs]
  exact takeSign_of_isDigit hc

/-- The digits that stand behind a sign, or behind none, are read as a number. -/
theorem readInt?_of_takeSign {text : List Char} {negative : Bool} {n : Nat}
    (h : takeSign text = (negative, natDigits n)) :
    readInt? text = some (if negative then -(n : Int) else n) := by
  have hne : (natDigits n).isEmpty = false := by simp [natDigits_ne_nil]
  simp only [readInt?, h, hne, all_isDigit_natDigits, digitsValue_natDigits, Bool.not_false,
    Bool.and_self, if_true]

/-- **An integer reads back from its digits.** -/
theorem readInt?_intDigits (n : Int) : readInt? (intDigits n) = some n := by
  rw [intDigits]
  split
  · rw [readInt?_of_takeSign (takeSign_dash _), if_pos rfl]
    congr 1
    omega
  · rw [readInt?_of_takeSign (takeSign_natDigits _), if_neg Bool.false_ne_true]
    congr 1
    omega

/-- A text that begins with a digit, behind its sign, is read as a decimal and not as one of the
words. -/
theorem readDouble?_of_isDigit (negative : Bool) {c : Char} {text : List Char}
    (hc : c.isDigit = true) :
    readDouble? (if negative then '-' :: c :: text else c :: text) =
      (readMagnitude? negative (c :: text)).map Decimal.toBinary64 := by
  have hsign : takeSign (if negative then '-' :: c :: text else c :: text) =
      (negative, c :: text) := by
    cases negative
    · exact takeSign_of_isDigit hc
    · rfl
  -- the words begin with a letter, and lowering leaves a digit alone
  have hword : ∀ d ds, d.isDigit = false → (lowerAscii (c :: text) == d :: ds) = false := by
    intro d ds hd
    refine beq_eq_false_iff_ne.mpr fun h => ?_
    rw [lowerAscii, List.map_cons, toLower_of_isDigit hc] at h
    rw [(List.cons.inj h).1, hd] at hc
    cases hc
  have hinf : (lowerAscii (c :: text) == "inf".toList) = false := hword 'i' "nf".toList rfl
  have hinfinity : (lowerAscii (c :: text) == "infinity".toList) = false :=
    hword 'i' "nfinity".toList rfl
  have hnan : (lowerAscii (c :: text) == "nan".toList) = false := hword 'n' "an".toList rfl
  simp only [readDouble?, hsign, hinf, hinfinity, hnan, Bool.or_false, Bool.false_eq_true,
    if_false]

/-! ### Magnitudes -/

theorem readMagnitude?_point (negative : Bool) {whole fraction : List Char}
    (hwhole : whole.all Char.isDigit = true) (hfraction : fraction.all Char.isDigit = true)
    (hne : whole ≠ []) {rest : List Char} (hrest : EndsDigits rest) :
    readMagnitude? negative (whole ++ '.' :: (fraction ++ rest)) =
      (readExponent? rest).map (Decimal.ofDigits negative whole fraction) := by
  have hpoint : EndsDigits ('.' :: (fraction ++ rest)) := endsDigits_cons rfl _
  have hempty : whole.isEmpty = false := by simp [hne]
  simp only [readMagnitude?, takeDigits_append hwhole hpoint, takeDigits_append hfraction hrest,
    hempty, Bool.false_and, Bool.false_eq_true, if_false]

theorem readMagnitude?_whole (negative : Bool) {whole : List Char}
    (hwhole : whole.all Char.isDigit = true) (hne : whole ≠ []) {rest : List Char}
    (hrest : EndsDigits rest) (hpoint : rest.head? ≠ some '.') :
    readMagnitude? negative (whole ++ rest) =
      (readExponent? rest).map (Decimal.ofDigits negative whole []) := by
  have hempty : whole.isEmpty = false := by simp [hne]
  simp only [readMagnitude?, takeDigits_append hwhole hrest, hempty, Bool.false_and,
    Bool.false_eq_true, if_false]
  split
  · exact absurd rfl hpoint
  · rfl

theorem readExponent?_signed (e : Int) :
    readExponent? ('e' :: (if e < 0 then '-' else '+') :: natDigits e.natAbs) = some e := by
  have hmark : ('e' == 'e' || 'e' == 'E') = true := rfl
  simp only [readExponent?, hmark, if_true]
  split
  · rw [readInt?_of_takeSign (takeSign_dash _), if_pos rfl]
    congr 1
    omega
  · rw [readInt?_of_takeSign (takeSign_plus _), if_neg Bool.false_ne_true]
    congr 1
    omega

end Text

/-! ### Layouts -/

namespace FloatLayout

open Text

theorem natDigits_eq_significantDigits (n : Nat) :
    ∃ z, natDigits n = significantDigits n ++ List.replicate z '0' := by
  have hsplit := List.takeWhile_append_dropWhile (p := (· == '0')) (l := (natDigits n).reverse)
  have hzeros : (natDigits n).reverse.takeWhile (· == '0') =
      List.replicate ((natDigits n).reverse.takeWhile (· == '0')).length '0' := by
    refine List.eq_replicate_iff.mpr ⟨rfl, fun c hc => ?_⟩
    simpa using List.all_eq_true.mp List.all_takeWhile c hc
  refine ⟨((natDigits n).reverse.takeWhile (· == '0')).length, ?_⟩
  rw [significantDigits, ← List.reverse_replicate, ← hzeros, ← List.reverse_append, hsplit,
    List.reverse_reverse]

/-- The significant digits of a number, and the zeros behind them. -/
theorem exists_significantDigits {n : Nat} (h : 0 < n) : ∃ z,
    (natDigits n).length = (significantDigits n).length + z ∧
      n = digitsValue (significantDigits n) * 10 ^ z ∧
      (significantDigits n).all Char.isDigit = true ∧ significantDigits n ≠ [] := by
  obtain ⟨z, hz⟩ := natDigits_eq_significantDigits n
  have hvalue := digitsValue_natDigits n
  rw [hz, digitsValue_append_zeros] at hvalue
  refine ⟨z, by rw [hz, List.length_append, List.length_replicate], hvalue.symm, ?_, ?_⟩
  · refine List.all_eq_true.mpr fun c hc => isDigit_of_mem_natDigits (n := n) ?_
    rw [hz]
    exact List.mem_append_left _ hc
  · intro hnil
    rw [hnil] at hvalue
    simp only [digitsValue, List.foldl_nil, Nat.zero_mul] at hvalue
    omega

/-- The digits of a positional text read back, up to zeros. -/
theorem readMagnitude?_renderPositional (layout : FloatLayout) (negative : Bool)
    {digits : List Char} (hdigits : digits.all Char.isDigit = true) (hne : digits ≠ [])
    (point : Int) : ∃ d, readMagnitude? negative (layout.renderPositional digits point) = some d ∧
      d.toBinary64 =
        Decimal.toBinary64 ⟨negative, digitsValue digits, point - digits.length⟩ := by
  have hends : EndsDigits [] := fun c hc => by cases hc
  rw [renderPositional]
  split_ifs with hpoint hwhole hkeeps
  · -- all digits stand behind the point
    have hfraction : (List.replicate (-point).toNat '0' ++ digits).all Char.isDigit = true := by
      rw [List.all_append, all_isDigit_zeros, hdigits, Bool.and_self]
    have hzero : ['0'].all Char.isDigit = true := rfl
    have hread := readMagnitude?_point negative hzero hfraction (by simp) hends
    rw [List.append_nil] at hread
    refine ⟨_, hread, ?_⟩
    -- neither the zero in front of the point nor those behind it count
    have hvalue : digitsValue (['0'] ++ (List.replicate (-point).toNat '0' ++ digits)) =
        digitsValue digits := by
      rw [digitsValue_append, digitsValue_append, digitsValue_zeros,
        show digitsValue ['0'] = 0 from rfl, Nat.zero_mul, Nat.zero_mul, Nat.zero_add, Nat.zero_add]
    rw [Decimal.ofDigits, hvalue, List.length_append, List.length_replicate]
    congr 2
    omega
  · -- all digits stand in front of it, then zeros, and perhaps one more zero behind it
    have hall : (digits ++ List.replicate (point.toNat - digits.length) '0').all Char.isDigit =
        true := by
      rw [List.all_append, all_isDigit_zeros, hdigits, Bool.and_self]
    have hne' : digits ++ List.replicate (point.toNat - digits.length) '0' ≠ [] := by simp [hne]
    have hzero : ['0'].all Char.isDigit = true := rfl
    have hread := readMagnitude?_point negative hall hzero hne' hends
    refine ⟨_, hread, ?_⟩
    rw [Decimal.ofDigits, List.append_assoc, ← List.replicate_one, List.replicate_append_replicate,
      digitsValue_append_zeros, Decimal.toBinary64_shift, List.length_replicate]
    congr 2
    omega
  · -- the same without a fraction
    have hall : (digits ++ List.replicate (point.toNat - digits.length) '0').all Char.isDigit =
        true := by
      rw [List.all_append, all_isDigit_zeros, hdigits, Bool.and_self]
    have hne' : digits ++ List.replicate (point.toNat - digits.length) '0' ≠ [] := by simp [hne]
    have hread := readMagnitude?_whole negative hall hne' hends (by simp)
    refine ⟨_, hread, ?_⟩
    rw [Decimal.ofDigits, List.append_nil, digitsValue_append_zeros, Decimal.toBinary64_shift]
    congr 2
    simp only [List.length_nil]
    omega
  · -- the point stands among the digits
    have hread := readMagnitude?_point negative (all_take hdigits point.toNat)
      (all_drop hdigits point.toNat) (by simp [hne]; omega) hends
    rw [List.append_nil] at hread
    refine ⟨_, hread, ?_⟩
    rw [Decimal.ofDigits, List.take_append_drop, List.length_drop]
    congr 2
    omega

/-- The digits of a scientific text read back as they are. -/
theorem readMagnitude?_renderScientific (negative : Bool) {digits : List Char}
    (hdigits : digits.all Char.isDigit = true) (hne : digits ≠ []) (e : Int) :
    readMagnitude? negative (renderScientific digits e) =
      some ⟨negative, digitsValue digits, e + 1 - digits.length⟩ := by
  have hmark : EndsDigits ('e' :: (if e < 0 then '-' else '+') :: natDigits e.natAbs) :=
    endsDigits_cons rfl _
  match digits, hne with
  | [d], _ =>
    have hread := readMagnitude?_whole negative hdigits (by simp) hmark (by simp)
    rw [readExponent?_signed] at hread
    refine hread.trans ?_
    simp [Decimal.ofDigits]
  | d :: d' :: rest, _ =>
    have hhead : [d].all Char.isDigit = true := by
      simp only [List.all_cons, Bool.and_eq_true] at hdigits ⊢
      exact ⟨hdigits.1, rfl⟩
    have htail : (d' :: rest).all Char.isDigit = true := by
      rw [List.all_cons, Bool.and_eq_true] at hdigits
      exact hdigits.2
    have hread := readMagnitude?_point negative hhead htail (by simp) hmark
    rw [readExponent?_signed] at hread
    refine hread.trans ?_
    simp only [Decimal.ofDigits, List.cons_append, List.nil_append, List.length_cons,
      Option.map_some, Option.some.injEq, Decimal.mk.injEq, true_and]
    omega

theorem negative_of_toBinary64 {d : Decimal} {x : FiniteDouble} (h : d.toBinary64 = .finite x) :
    x.negative = d.negative := by
  -- all ways of denoting a double end in a rank or at an infinity of that sign
  have hrank : ∀ rank, Binary64.ofRank d.negative rank = .finite x → x.negative = d.negative := by
    intro rank h
    rw [Binary64.ofRank] at h
    split at h
    · rw [← Binary64.finite.inj h]
    · cases h
  rw [Decimal.toBinary64] at h
  split_ifs at h
  all_goals exact hrank _ h

/-- The text begins with a digit. -/
def BeginsDigit (text : List Char) : Prop :=
  ∃ c rest, text = c :: rest ∧ c.isDigit = true

theorem beginsDigit_renderMagnitude (layout : FloatLayout) (coefficient : Nat) (exponent : Int) :
    BeginsDigit (layout.renderMagnitude coefficient exponent) := by
  rcases Nat.eq_zero_or_pos coefficient with rfl | hpos
  · exact ⟨'0', _, rfl, rfl⟩
  obtain ⟨z, -, -, hall, hne⟩ := exists_significantDigits hpos
  obtain ⟨c, cs, hcs⟩ := List.exists_cons_of_ne_nil hne
  have hc : c.isDigit = true := List.all_eq_true.mp hall c (hcs ▸ List.mem_cons_self ..)
  simp only [renderMagnitude, if_neg (Nat.ne_of_gt hpos), hcs]
  generalize ((natDigits coefficient).length : Int) + exponent = point
  split
  · rw [renderPositional]
    split_ifs with hpoint
    · exact ⟨'0', _, rfl, rfl⟩
    · exact ⟨c, _, rfl, hc⟩
    · exact ⟨c, _, rfl, hc⟩
    · obtain ⟨n, hn⟩ : ∃ n, point.toNat = n + 1 := ⟨point.toNat - 1, by omega⟩
      rw [hn]
      exact ⟨c, _, rfl, hc⟩
  · cases cs with
    | nil => exact ⟨c, _, rfl, hc⟩
    | cons d ds => exact ⟨c, _, rfl, hc⟩

/-- A magnitude reads back from its text, up to zeros. -/
theorem readMagnitude?_renderMagnitude (layout : FloatLayout) (negative : Bool)
    (coefficient : Nat) (exponent : Int) : ∃ d,
      readMagnitude? negative (layout.renderMagnitude coefficient exponent) = some d ∧
        d.toBinary64 = Decimal.toBinary64 ⟨negative, coefficient, exponent⟩ := by
  rcases Nat.eq_zero_or_pos coefficient with rfl | hpos
  · rw [renderMagnitude, if_pos rfl]
    split
    all_goals exact ⟨_, rfl, Decimal.toBinary64_of_zero.trans Decimal.toBinary64_of_zero.symm⟩
  obtain ⟨z, hlength, hvalue, hall, hne⟩ := exists_significantDigits hpos
  -- only the significant digits are written, so the zeros behind them go into the exponent
  have hshift : Decimal.toBinary64 ⟨negative, coefficient, exponent⟩ =
      Decimal.toBinary64 ⟨negative, digitsValue (significantDigits coefficient), exponent + z⟩ := by
    rw [← Decimal.toBinary64_shift, ← hvalue]
  rw [renderMagnitude, if_neg (Nat.ne_of_gt hpos), hshift]
  extract_lets point digits
  split
  · obtain ⟨d, hread, hd⟩ := readMagnitude?_renderPositional layout negative hall hne point
    refine ⟨d, hread, hd.trans ?_⟩
    congr 2
    omega
  · refine ⟨_, readMagnitude?_renderScientific negative hall hne (point - 1), ?_⟩
    congr 2
    omega

/-! ### Characters -/

/-- The characters that the text of a number is made of. -/
def isNumberChar (c : Char) : Bool :=
  c.isDigit || c == '-' || c == '+' || c == '.' || c == 'e'

theorem isBlank_of_isNumberChar {c : Char} (h : isNumberChar c = true) : isBlank c = false := by
  simp only [isNumberChar, Bool.or_eq_true, beq_iff_eq] at h
  rcases h with (((h | rfl) | rfl) | rfl) | rfl
  · exact isBlank_of_isDigit h
  all_goals rfl

theorem all_isNumberChar_of_isDigit {digits : List Char} (h : digits.all Char.isDigit = true) :
    digits.all isNumberChar = true := by
  refine List.all_eq_true.mpr fun c hc => ?_
  rw [isNumberChar, List.all_eq_true.mp h c hc]
  rfl

theorem all_isNumberChar_renderPositional (layout : FloatLayout) {digits : List Char}
    (h : digits.all isNumberChar = true) (point : Int) :
    (layout.renderPositional digits point).all isNumberChar = true := by
  have hzeros : ∀ n, (List.replicate n '0').all isNumberChar = true := fun n =>
    all_isNumberChar_of_isDigit (all_isDigit_zeros n)
  have hdot : isNumberChar '.' = true := rfl
  have hwhole : "0.".toList.all isNumberChar = true := rfl
  have hfraction : ".0".toList.all isNumberChar = true := rfl
  rw [renderPositional]
  split_ifs
  · rw [List.all_append, List.all_append, hwhole, hzeros, h]
    rfl
  · rw [List.all_append, List.all_append, hfraction, hzeros, h]
    rfl
  · rw [List.append_nil, List.all_append, hzeros, h]
    rfl
  · rw [List.all_append, List.all_cons, all_take h, hdot, all_drop h]
    rfl

theorem all_isNumberChar_renderScientific {digits : List Char}
    (h : digits.all isNumberChar = true) (e : Int) :
    (renderScientific digits e).all isNumberChar = true := by
  have hexponent := all_isNumberChar_of_isDigit (all_isDigit_natDigits e.natAbs)
  have hsign : isNumberChar (if e < 0 then '-' else '+') = true := by
    split <;> rfl
  have hdot : isNumberChar '.' = true := rfl
  have hmark : isNumberChar 'e' = true := rfl
  match digits, h with
  | [], _ => simp [renderScientific, hexponent, hsign, hmark]
  | [d], h => simp_all [renderScientific]
  | d :: d' :: rest, h => simp_all [renderScientific]

theorem all_isNumberChar_render (layout : FloatLayout) (x : FiniteDouble) :
    (layout.render x).all isNumberChar = true := by
  have hdash : isNumberChar '-' = true := rfl
  have hbody : ∀ coefficient exponent,
      (layout.renderMagnitude coefficient exponent).all isNumberChar = true := by
    intro coefficient exponent
    rcases Nat.eq_zero_or_pos coefficient with rfl | hpos
    · rw [renderMagnitude, if_pos rfl]
      split <;> rfl
    obtain ⟨z, -, -, hdigits, -⟩ := exists_significantDigits hpos
    rw [renderMagnitude, if_neg (Nat.ne_of_gt hpos)]
    extract_lets point digits
    split
    · exact all_isNumberChar_renderPositional layout (all_isNumberChar_of_isDigit hdigits) point
    · exact all_isNumberChar_renderScientific (all_isNumberChar_of_isDigit hdigits) (point - 1)
  rw [render]
  split
  · rw [List.all_cons, hdash, hbody]
    rfl
  · exact hbody _ _

/-! ### Reading back -/

/-- **A double reads back from its text**, whatever the layout. -/
theorem readDouble?_render (layout : FloatLayout) (x : FiniteDouble) :
    readDouble? (layout.render x) = some (.finite x) := by
  have hfinite := x.toBinary64_shortest layout.ties
  -- the sign is written apart, and rounding does not change it
  have hnegative := negative_of_toBinary64 hfinite
  rw [render]
  generalize x.shortest layout.ties = d at hfinite hnegative
  obtain ⟨r, hread, hr⟩ :=
    readMagnitude?_renderMagnitude layout x.negative d.coefficient d.exponent
  obtain ⟨c, rest, hbody, hc⟩ := beginsDigit_renderMagnitude layout d.coefficient d.exponent
  have hdouble : readDouble? (if x.negative then '-' :: c :: rest else c :: rest) = _ :=
    readDouble?_of_isDigit x.negative hc
  rw [← hbody, hread] at hdouble
  rw [hdouble, Option.map_some, hr, hnegative, hfinite]

/-! ### Doubles are not written like integers -/

theorem exists_not_isDigit_renderMagnitude {layout : FloatLayout}
    (hkeeps : layout.keepsFraction = true) (coefficient : Nat) (exponent : Int) :
    ∃ c ∈ layout.renderMagnitude coefficient exponent, c.isDigit = false := by
  have hpositional : ∀ (digits : List Char) (point : Int),
      '.' ∈ layout.renderPositional digits point := by
    intro digits point
    rw [renderPositional, hkeeps]
    split_ifs
    · exact List.mem_append_left _ (List.mem_append_left _ (by decide))
    · exact List.mem_append_right _ (by decide)
    · exact absurd rfl ‹¬true = true›
    · exact List.mem_append_right _ (List.mem_cons_self ..)
  rw [renderMagnitude, hkeeps]
  split
  · exact ⟨'.', List.mem_cons_of_mem _ (by decide), rfl⟩
  · extract_lets point digits
    split
    · exact ⟨'.', hpositional digits point, rfl⟩
    · exact ⟨'e', List.mem_append_right _ (List.mem_cons_self ..), rfl⟩

/-- **No double reads as an integer** in a layout that keeps the fraction of a whole
number. -/
theorem readInt?_render {layout : FloatLayout} (hkeeps : layout.keepsFraction = true)
    (x : FiniteDouble) : readInt? (layout.render x) = none := by
  rw [render]
  generalize x.shortest layout.ties = d
  obtain ⟨c, rest, hbody, hc⟩ := beginsDigit_renderMagnitude layout d.coefficient d.exponent
  obtain ⟨m, hmem, hm⟩ :=
    exists_not_isDigit_renderMagnitude hkeeps d.coefficient d.exponent
  generalize layout.renderMagnitude d.coefficient d.exponent = body at hbody hmem
  -- behind the sign stands a character that no integer has
  have hsign : takeSign (if x.negative then '-' :: body else body) = (x.negative, body) := by
    cases x.negative
    · rw [if_neg Bool.false_ne_true, hbody]
      exact takeSign_of_isDigit hc
    · rfl
  have hall : body.all Char.isDigit = false :=
    List.all_eq_false.mpr ⟨m, hmem, by simp [hm]⟩
  rw [readInt?, hsign]
  simp only [hall, Bool.and_false, Bool.false_eq_true, if_false]

end FloatLayout

end TableQuery
