import TableQuery.Execution.Pushdown
import TableQuery.Proofs.Number.ReadBack
import TableQuery.Proofs.Predicate.Conditions
import TableQuery.Proofs.Text.Trim

/-!
# Cells that a pushed condition does not miss

A condition is tested twice. The row test reads the cell as the type of its column
and compares readings; the storage filter compares keys, or dates, and knows no
types. What is pushed down loses a row when the first accepts a cell that the second
turns away, and this happens: the integer `2 ^ 53 + 1` is read as the double `2 ^ 53`
but has a key of its own, the cell `1` of a boolean column is read as true but has
not the key of `true`, and of an array the test looks at the items and the filter at
the whole.

A *plain* cell (`TableQuery.ColumnType.Plain`) is one that is loosely equal to
whatever its elements are read as. For plain cells the filter lets everything through
that the test accepts (`TableQuery.StorageFilter.keeps_of_plain`), and for no others:
to a cell that is not plain there is a literal that the test accepts and the filter
turns away
(`TableQuery.StorageFilter.plain_of_not_misses`).
-/

namespace TableQuery

/-- An integer that a literal for a big integer can denote. -/
def Text.FitsBigInt (n : Int) : Prop :=
  -(2 ^ 127) ≤ n ∧ n < 2 ^ 127

/-- **A plain cell** of a type: it is loosely equal to whatever one of its elements is
read as, or for dates, it is read as a date itself as soon as one of them is. -/
def ColumnType.Plain (type : ColumnType) (cell : Json) : Prop :=
  match type with
  | .number => ∀ v ∈ cell.elements, ∀ x, v.number? = some (.finite x) →
      cell.looseEq (.num (.ofFinite x)) = true
  | .bigInt => ∀ v ∈ cell.elements, ∀ n, v.bigInt? = some n → Text.FitsBigInt n →
      cell.looseEq (StorageFilter.bigIntValue n) = true
  | .boolean => ∀ v ∈ cell.elements, ∀ b, v.boolean? = some b → cell.looseEq (.bool b) = true
  | .date => ∀ v ∈ cell.elements, v.date?.isSome = true → cell.date?.isSome = true
  | _ => True

namespace ColumnType

theorem eq_string_of_supportsText {type : ColumnType} (h : type.supportsText = true) :
    type = string := by
  cases type with
  | string => rfl
  | _ => cases h

theorem eq_date_of_supportsRange {type : ColumnType} (h : type.supportsRange = true) :
    type = date := by
  cases type with
  | date => rfl
  | _ => cases h

end ColumnType

/-! ### Keys of numbers -/

theorem FiniteDouble.safeInt?_congr {x y : FiniteDouble} (h : x.units = y.units) :
    x.safeInt? = y.safeInt? := by
  have hwhole : x.isWhole = y.isWhole := by rw [isWhole, isWhole, h]
  have htruncate : x.truncate = y.truncate := by rw [truncate, truncate, h]
  rw [safeInt?, safeInt?, hwhole, htruncate]

/-- Doubles of one value have one key, the two zeros included. -/
theorem Json.key_ofFinite_congr {x y : FiniteDouble} (h : x.units = y.units) :
    (Json.num (.ofFinite x)).key = (Json.num (.ofFinite y)).key := by
  by_cases hzero : y.units = 0
  -- both zeros are written as the integer zero
  · have hwhole : y.isWhole = true := by
      rw [FiniteDouble.isWhole, hzero, Int.zero_emod, beq_self_eq_true]
    have htruncate : y.truncate = 0 := by
      rw [FiniteDouble.truncate, hzero, Int.zero_tdiv]
    have hsafe : y.safeInt? = some 0 := by
      rw [FiniteDouble.safeInt?, hwhole, htruncate]
      rfl
    rw [Number.ofFinite, Number.ofFinite, FiniteDouble.safeInt?_congr h, hsafe]
  · rw [FiniteDouble.eq_of_units h hzero]

theorem Binary64.equals_finite {y : Binary64} {x : FiniteDouble}
    (h : y.equals (.finite x) = true) : ∃ z, y = .finite z ∧ z.units = x.units := by
  cases y with
  | nan => cases h
  -- no infinity equals a finite double
  | infinite negative => cases negative <;> cases h
  | finite z =>
    refine ⟨z, rfl, ?_⟩
    have hcompare : some (compare z.units x.units) = some Ordering.eq := beq_iff_eq.mp h
    exact Std.compare_eq_iff_eq.mp (Option.some.inj hcompare)

theorem Binary64.equals_self (x : FiniteDouble) : (finite x).equals (.finite x) = true := by
  simp [equals, compare?]

/-! ### What the row test accepts -/

theorem TextTest.both_eq_true {α β : Type} {related : α → β → Bool} {a : Option α} {b : Option β} :
    both related a b = true ↔ ∃ x y, a = some x ∧ b = some y ∧ related x y = true := by
  cases a <;> cases b <;> simp [both]

theorem CellTest.exists_element_of_text {t : TextTest} {type : ColumnType} {cell : Json}
    (h : (CellTest.text t).acceptsValue type cell = true) :
    ∃ v ∈ cell.elements, t.accepts type.element v = true := by
  simp only [acceptsValue, List.any_eq_true, List.mem_filter] at h
  obtain ⟨v, ⟨hv, -⟩, haccepts⟩ := h
  exact ⟨v, hv, haccepts⟩

theorem CellTest.accepts_of_element {t : TextTest} {type : ColumnType} {cell v : Json}
    (hv : v ∈ cell.elements) (hnull : v.isNull = false)
    (haccepts : t.accepts type.element v = true) :
    (CellTest.text t).accepts type (some cell) = true := by
  have hcell : cell.isNull = false := Json.isNull_of_ne fun hcell => by
    subst hcell
    rw [List.mem_singleton.mp hv] at hnull
    cases hnull
  have hany : (CellTest.text t).acceptsValue type cell = true := by
    simp only [acceptsValue, List.any_eq_true, List.mem_filter]
    exact ⟨v, ⟨hv, by simp [hnull]⟩, haccepts⟩
  exact (accepts_iff (by simp) (by simp)).mpr ⟨cell, rfl, hcell, hany⟩

/-- A cell that is read as a date has no elements but itself. -/
theorem Json.elements_of_date? {cell : Json} (h : cell.date?.isSome = true) :
    cell.elements = [cell] := by
  cases cell with
  | arr items => cases h
  | _ => rfl

/-! ### Plain cells are not missed -/

namespace StorageFilter

variable {row : Row} {cell : Json}

theorem eval_eq_ne_false {name : String} {value : Json} (hcell : row.get? name = some cell)
    (hnull : cell.isNull = false) (heq : cell.looseEq value = true) :
    (eq name value).eval row ≠ .holds false := by
  rw [eval, hcell]
  simp [hnull, heq]

theorem eval_range_ne_false {name : String} {lower upper : Option Int} {millis : Int}
    (hcell : row.get? name = some cell) (hdate : cell.date? = some millis)
    (hwithin : withinBounds lower upper millis = true) :
    (range name lower upper).eval row ≠ .holds false := by
  rw [eval, hcell, Option.bind_some, hdate]
  simp [hwithin]

/-- A search sees a string as the row test does, and reports anything else. -/
theorem search_keeps {column : Column} (htext : column.type.supportsText = true)
    {text : String} {caseSensitive : Bool} {mode : MatchMode}
    (hcell : row.get? column.name = some cell) (hnull : cell.isNull = false) {v : Json}
    (hv : v ∈ cell.elements)
    (haccepts : (TextTest.mk text caseSensitive mode).accepts column.type.element v = true) :
    (search mode column.name text !caseSensitive).eval row ≠ .holds false := by
  rw [eval, hcell]
  cases cell with
  | null => cases hnull
  | str s =>
    obtain rfl := List.mem_singleton.mp hv
    rw [ColumnType.eq_string_of_supportsText htext] at haccepts
    -- a string is its only element, and both sides search it alike
    have hfound : mode.findsFolded (!caseSensitive) text.toList s.toList = true := by
      cases mode <;> exact haccepts
    rw [searchCell, hfound]
    simp
  | _ => simp [searchCell]

/-- Of a plain cell only the cell itself is read as a date. -/
theorem eq_of_date? (hplain : ColumnType.date.Plain cell) {v : Json} (hv : v ∈ cell.elements)
    {millis : Int} (hmillis : v.date? = some millis) : v = cell := by
  have hdate := hplain v hv (by rw [hmillis]; rfl)
  rw [Json.elements_of_date? hdate] at hv
  exact List.mem_singleton.mp hv

/-- A text compared as the type of the column. -/
theorem typed?_keeps {column : Column} {text : String} {caseSensitive : Bool} {f : StorageFilter}
    (h : typed? column text = some f) (hcell : row.get? column.name = some cell)
    (hnull : cell.isNull = false) (hplain : column.type.Plain cell) {v : Json}
    (hv : v ∈ cell.elements)
    (haccepts : (TextTest.mk text caseSensitive .contains).accepts column.type.element v = true) :
    f.eval row ≠ .holds false := by
  obtain ⟨name, type, optional⟩ := column
  cases type with
  | number =>
    obtain ⟨x, hx, rfl⟩ := Option.map_eq_some_iff.mp h
    obtain ⟨x', y, hx', hy, hequals⟩ := TextTest.both_eq_true.mp haccepts
    obtain rfl : x = x' := Option.some.inj (hx.symm.trans hx')
    obtain ⟨z, rfl, hunits⟩ := Binary64.equals_finite hequals
    -- the element and the literal are read as one value, maybe as zeros of either sign
    have hloose := hplain v hv z hy
    rw [Json.looseEq, Json.key_ofFinite_congr hunits] at hloose
    exact eval_eq_ne_false hcell hnull hloose
  | bigInt =>
    obtain ⟨n, hn, rfl⟩ := Option.map_eq_some_iff.mp h
    obtain ⟨n', m, hn', hm, hequals⟩ := TextTest.both_eq_true.mp haccepts
    obtain rfl : n = n' := Option.some.inj (hn.symm.trans hn')
    obtain rfl : n = m := beq_iff_eq.mp hequals
    have hfits : Text.FitsBigInt n := by
      rw [Text.bigInt?, Option.filter_eq_some_iff, Bool.and_eq_true, decide_eq_true_eq,
        decide_eq_true_eq] at hn
      exact hn.2
    exact eval_eq_ne_false hcell hnull (hplain v hv n hm hfits)
  | boolean =>
    obtain ⟨b, hb, rfl⟩ := Option.map_eq_some_iff.mp h
    obtain ⟨b', c, hb', hc, hequals⟩ := TextTest.both_eq_true.mp haccepts
    obtain rfl : b = b' := Option.some.inj (hb.symm.trans hb')
    obtain rfl : b = c := beq_iff_eq.mp hequals
    exact eval_eq_ne_false hcell hnull (hplain v hv b hc)
  | date =>
    obtain ⟨lower, hlower, h⟩ := Option.bind_eq_some_iff.mp h
    obtain ⟨upper, hupper, h⟩ := Option.bind_eq_some_iff.mp h
    obtain rfl := Option.some.inj h
    obtain ⟨day, millis, hday, hmillis, hwithin⟩ := TextTest.both_eq_true.mp haccepts
    have hbounds : some (lower, upper) = some day := by
      rw [← hday, TextTest.day?, hlower, hupper]
      rfl
    obtain rfl := Option.some.inj hbounds
    -- the filter reads the whole cell, which is the element that was accepted
    obtain rfl := eq_of_date? hplain hv hmillis
    exact eval_range_ne_false hcell hmillis hwithin
  | _ => cases h

theorem readBound?_eq_some {read : String → Option Int} {bound : Option String}
    {value : Option Int} (h : readBound? read bound = some value) :
    bound.map read = value.map some := by
  cases bound with
  | none =>
    obtain rfl := Option.some.inj h
    rfl
  | some text =>
    obtain ⟨n, hn, rfl⟩ := Option.map_eq_some_iff.mp h
    rw [Option.map_some, hn]
    rfl

/-- A range whose bounds can be read is tested as a range. -/
theorem compileLiteral_dateRange {lower upper : Option String} {lo up : Option Int}
    (hlower : lower.map Text.date? = lo.map some) (hupper : upper.map Text.upperDate? = up.map some)
    (scope : CompileScope) (columns : List Column) :
    compileLiteral scope columns (.dateRange lower upper) =
      .ok (anyColumn columns (.range lo up)) := by
  simp only [compileLiteral, hlower, hupper]
  cases lo <;> cases up <;> rfl

/-- **A pushed condition does not miss a plain cell** that the row test accepts. -/
theorem keeps_of_plain {column : Column} {literal : Literal} {f : StorageFilter}
    (h : ofCondition? column literal = some f)
    (hplain : ∀ cell, row.get? column.name = some cell → column.type.Plain cell)
    {scope : CompileScope} {test : RowTest}
    (hcompile : compileLiteral scope [column] literal = .ok test) (htest : test row = true) :
    f.eval row ≠ .holds false := by
  unfold ofCondition? at h
  split at h
  case h_1 text caseSensitive mode =>
    obtain rfl : anyColumn [column] (.text ⟨text, caseSensitive, mode⟩) = test :=
      Except.ok.inj hcompile
    rw [anyColumn, List.any_cons, List.any_nil, Bool.or_false] at htest
    obtain ⟨cell, hcell, hnull, haccepts⟩ :=
      (CellTest.accepts_iff (by simp) (by simp)).mp htest
    obtain ⟨v, hv, hvalue⟩ := CellTest.exists_element_of_text haccepts
    split at h
    case isTrue htext =>
      obtain rfl := Option.some.inj h
      exact search_keeps htext hcell hnull hv hvalue
    case isFalse =>
      split at h
      case isTrue hexact =>
        rw [Bool.and_eq_true] at hexact
        obtain rfl : mode = .contains := beq_iff_eq.mp hexact.1
        exact typed?_keeps h hcell hnull (hplain cell hcell) hv hvalue
      case isFalse => cases h
  case h_2 lower upper =>
    split at h
    case isTrue hrange =>
      obtain ⟨lo, hlo, h⟩ := Option.bind_eq_some_iff.mp h
      obtain ⟨up, hup, h⟩ := Option.bind_eq_some_iff.mp h
      obtain rfl := Option.some.inj h
      rw [compileLiteral_dateRange (readBound?_eq_some hlo) (readBound?_eq_some hup)] at hcompile
      obtain rfl := Except.ok.inj hcompile
      rw [anyColumn, List.any_cons, List.any_nil, Bool.or_false] at htest
      obtain ⟨cell, hcell, -, haccepts⟩ :=
        (CellTest.accepts_iff (by simp) (by simp)).mp htest
      obtain ⟨v, hv, hwithin⟩ := List.any_eq_true.mp haccepts
      obtain ⟨millis, hmillis, hwithin⟩ := (Option.any_eq_true ..).mp hwithin
      have hdate := ColumnType.eq_date_of_supportsRange hrange
      obtain rfl := eq_of_date? (hdate ▸ hplain cell hcell) hv hmillis
      exact eval_range_ne_false hcell hmillis hwithin
    case isFalse => cases h
  case h_3 => cases h

/-! ### Other cells are missed -/

/-- What is missed: the row test accepts the cell and the filter turns it away. -/
def Misses (column : Column) (literal : Literal) (row : Row) : Prop :=
  ∃ f, ofCondition? column literal = some f ∧ f.eval row = .holds false ∧
    ∀ scope, ∃ test, compileLiteral scope [column] literal = .ok test ∧ test row = true

/-- A literal that an element matches and whose value the cell is not equal to. -/
theorem misses_text {column : Column} {text : String} {value : Json}
    (htyped : typed? column text = some (eq column.name value))
    (hexact : column.type.supportsExact = true) (htext : column.type.supportsText = false)
    (hcell : row.get? column.name = some cell) (hloose : ¬cell.looseEq value = true)
    {v : Json} (hv : v ∈ cell.elements) (hnull : v.isNull = false)
    (haccepts : (TextTest.mk text false .contains).accepts column.type.element v = true) :
    Misses column (.text text false .contains) row := by
  refine ⟨eq column.name value, ?_, ?_, fun scope => ⟨_, rfl, ?_⟩⟩
  · simp [ofCondition?, htext, hexact, htyped]
  · rw [eval, hcell]
    simp [hloose]
  · rw [anyColumn, List.any_cons, hcell, CellTest.accepts_of_element hv hnull haccepts]
    rfl

theorem Text.number?_render (x : FiniteDouble) :
    Text.number? (String.ofList (Json.floatLayout.render x)) = some x := by
  have hsolid : ∀ c ∈ Json.floatLayout.render x, Text.isBlank c = false := fun c hc =>
    FloatLayout.isBlank_of_isNumberChar
      (List.all_eq_true.mp (FloatLayout.all_isNumberChar_render Json.floatLayout x) c hc)
  rw [Text.number?, String.toList_ofList, Text.trim_of_mem hsolid, FloatLayout.readDouble?_render]
  rfl

theorem Text.bigInt?_intDigits {n : Int} (h : Text.FitsBigInt n) :
    Text.bigInt? (String.ofList (Text.intDigits n)) = some n := by
  have hdigits : ∀ c ∈ Text.natDigits n.natAbs, Text.isBlank c = false := fun c hc =>
    Text.isBlank_of_isDigit (Text.isDigit_of_mem_natDigits hc)
  have hsolid : ∀ c ∈ Text.intDigits n, Text.isBlank c = false := by
    intro c hc
    rw [Text.intDigits] at hc
    split at hc
    · rcases List.mem_cons.mp hc with rfl | hc
      · rfl
      · exact hdigits c hc
    · exact hdigits c hc
  rw [Text.bigInt?, String.toList_ofList, Text.trim_of_mem hsolid, Text.readInt?_intDigits,
    Option.filter_some, if_pos]
  rw [Bool.and_eq_true, decide_eq_true_eq, decide_eq_true_eq]
  exact h

/-- **Where no condition on the column misses the cell, it is plain.** The literal to
try is what an element is read as, written out. -/
theorem plain_of_not_misses {column : Column} (hcell : row.get? column.name = some cell)
    (h : ∀ literal, ¬Misses column literal row) : column.type.Plain cell := by
  obtain ⟨name, type, optional⟩ := column
  cases type with
  | number =>
    intro v hv x hx
    refine Decidable.of_not_not fun hloose => ?_
    -- the double is written out so that it reads back, and the literal is its text
    have hread := Text.number?_render x
    have htyped : typed? ⟨name, .number, optional⟩
        (String.ofList (Json.floatLayout.render x)) = some (eq name (.num (.ofFinite x))) := by
      rw [typed?, hread]
      rfl
    have hnull : v.isNull = false := Json.isNull_of_ne (by rintro rfl; cases hx)
    refine h _ (misses_text htyped rfl rfl hcell hloose hv hnull ?_)
    exact TextTest.both_eq_true.mpr ⟨x, .finite x, hread, hx, Binary64.equals_self x⟩
  | bigInt =>
    intro v hv n hn hfits
    refine Decidable.of_not_not fun hloose => ?_
    -- the literal is the integer in decimal digits
    have hread := Text.bigInt?_intDigits hfits
    have htyped : typed? ⟨name, .bigInt, optional⟩ (String.ofList (Text.intDigits n)) =
        some (eq name (bigIntValue n)) := by
      rw [typed?, hread]
      rfl
    have hnull : v.isNull = false := Json.isNull_of_ne (by rintro rfl; cases hn)
    refine h _ (misses_text htyped rfl rfl hcell hloose hv hnull ?_)
    exact TextTest.both_eq_true.mpr ⟨n, n, hread, hn, beq_self_eq_true n⟩
  | boolean =>
    intro v hv b hb
    refine Decidable.of_not_not fun hloose => ?_
    have hread : Text.bool? (if b then "true" else "false") = some b := by
      cases b <;> decide
    have htyped : typed? ⟨name, .boolean, optional⟩ (if b then "true" else "false") =
        some (eq name (.bool b)) := by
      rw [typed?, hread]
      rfl
    have hnull : v.isNull = false := Json.isNull_of_ne (by rintro rfl; cases hb)
    refine h _ (misses_text htyped rfl rfl hcell hloose hv hnull ?_)
    exact TextTest.both_eq_true.mpr ⟨b, b, hread, hb, beq_self_eq_true b⟩
  | date =>
    intro v hv hdate
    refine Bool.of_not_eq_false fun hnone => ?_
    -- a range without bounds accepts every date that it finds among the elements
    refine h (.dateRange none none) ⟨range name none none, rfl, ?_, fun scope => ⟨_, rfl, ?_⟩⟩
    · have hdate' : cell.date? = none :=
        Option.isNone_iff_eq_none.mp (Option.isSome_eq_false_iff.mp hnone)
      rw [eval, hcell, Option.bind_some, hdate']
    · have hcellNull : cell.isNull = false := Json.isNull_of_ne fun hnull => by
        subst hnull
        rw [List.mem_singleton.mp hv] at hdate
        cases hdate
      obtain ⟨millis, hmillis⟩ := Option.isSome_iff_exists.mp hdate
      have hany : (CellTest.range none none).acceptsValue .date cell = true :=
        List.any_eq_true.mpr ⟨v, hv, by rw [hmillis]; rfl⟩
      rw [anyColumn, List.any_cons, hcell]
      simp [CellTest.accepts, Option.filter, hcellNull, hany]
  | _ => trivial

end StorageFilter

end TableQuery
