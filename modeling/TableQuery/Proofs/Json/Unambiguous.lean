import TableQuery.Json.Reader
import TableQuery.Json.Writer
import TableQuery.Proofs.Number.ReadBack

/-!
# A text denotes one value

Different values have different texts (`TableQuery.Json.serialize_injective`). This
holds of all values, also of those that no text is read as: numbers of any size and
objects with their fields in any order or repeated.

What is shown for it is that texts can be told apart while something stands behind
them (`TableQuery.Json.render_append_inj`). Most texts end in a mark of their own.
A number does not, but it is always followed by a comma or a closing bracket, and
neither occurs in numbers. Which kind of value a text belongs to is seen from its
first character (`TableQuery.Json.kindMark_head`); strings are read back by the
reader of documents, piece by piece.
-/

namespace TableQuery

open Text

/-! ### Strings -/

namespace Written

variable {fuel : Nat} {rest : List Char}

theorem readStringTail?_short {c e : Char} (he : escaped? e = some c) (hu : e ≠ 'u') :
    readStringTail? (fuel + 1) ('\\' :: e :: rest) =
      (readStringTail? fuel rest).map fun r => (.char c :: r.1, r.2) := by
  have hslash : ('\\' == '"') = false := rfl
  rw [readStringTail?.eq_def]
  simp only [hslash, Bool.false_eq_true, if_false, beq_self_eq_true, if_true, he]
  cases readStringTail? fuel rest <;> rfl

theorem hexValue?_hexDigit : ∀ n < 16, hexValue? (Json.hexDigit n) = some n := by
  decide

theorem readStringTail?_unit {n : Nat} (h : n < 32) :
    readStringTail? (fuel + 1)
        ('\\' :: 'u' :: '0' :: '0' :: Json.hexDigit (n / 16) :: Json.hexDigit (n % 16) :: rest) =
      (readStringTail? fuel rest).map fun r => (.unit n :: r.1, r.2) := by
  have hzero : hexValue? '0' = some 0 := rfl
  have hhigh := hexValue?_hexDigit (n / 16) (by omega)
  have hlow := hexValue?_hexDigit (n % 16) (by omega)
  have hn : ((0 * 16 + 0) * 16 + n / 16) * 16 + n % 16 = n := by omega
  have hslash : ('\\' == '"') = false := rfl
  rw [readStringTail?.eq_def]
  simp only [hslash, Bool.false_eq_true, if_false, beq_self_eq_true, if_true]
  rw [readUnit?, hzero, hhigh, hlow]
  simp only [Option.bind_eq_bind, Option.bind_some, hn]
  cases readStringTail? fuel rest <;> rfl

theorem readStringTail?_char {c : Char} (hquote : c ≠ '"') (hslash : c ≠ '\\')
    (hcontrol : ¬c.toNat < 0x20) :
    readStringTail? (fuel + 1) (c :: rest) =
      (readStringTail? fuel rest).map fun r => (.char c :: r.1, r.2) := by
  rw [readStringTail?.eq_def]
  simp only [beq_iff_eq, hquote, hslash, hcontrol, if_false]
  cases readStringTail? fuel rest <;> rfl

end Written

namespace StringPiece

/-- The piece denotes the character, whatever stands behind it. -/
def Denotes (piece : StringPiece) (c : Char) : Prop :=
  ∀ pieces, chars? (piece :: pieces) = (chars? pieces).map (c :: ·)

theorem denotes_char (c : Char) : Denotes (.char c) c := fun pieces => by rw [chars?]

theorem denotes_unit {c : Char} (h : c.toNat < 0x20) : Denotes (.unit c.toNat) c := by
  intro pieces
  have hhigh : isHighSurrogate c.toNat = false := by
    simp only [isHighSurrogate, Bool.and_eq_false_iff, decide_eq_false_iff_not]
    omega
  have hlow : isLowSurrogate c.toNat = false := by
    simp only [isLowSurrogate, Bool.and_eq_false_iff, decide_eq_false_iff_not]
    omega
  rw [chars?.eq_def]
  simp [hhigh, hlow, Char.ofNat_toNat]

end StringPiece

namespace Json

/-- **How a character is written in a string**: by a short escape, by its number, or as
it is. -/
theorem escapeChar_cases (c : Char) :
    (∃ e, escapeChar c = ['\\', e] ∧ Written.escaped? e = some c ∧ e ≠ 'u') ∨
    (c.toNat < 0x20 ∧ escapeChar c =
      ['\\', 'u', '0', '0', hexDigit (c.toNat / 16), hexDigit (c.toNat % 16)]) ∨
    (c ≠ '"' ∧ c ≠ '\\' ∧ ¬c.toNat < 0x20 ∧ escapeChar c = [c]) := by
  rw [escapeChar]
  split_ifs with hquote hslash h h h h h hcontrol
  -- the characters that have a short escape come first
  iterate 7 exact .inl ⟨_, rfl, by rw [eq_of_beq ‹(c == _) = true›]; rfl, by decide⟩
  · exact .inr (.inl ⟨hcontrol, rfl⟩)
  · exact .inr (.inr ⟨by simpa using hquote, by simpa using hslash, hcontrol, rfl⟩)

/-- The reader takes an escaped character off as one piece, which denotes it. -/
theorem readStringTail?_escapeChar (c : Char) (rest : List Char) (fuel : Nat) :
    ∃ piece, StringPiece.Denotes piece c ∧
      Written.readStringTail? (fuel + 1) (escapeChar c ++ rest) =
        (Written.readStringTail? fuel rest).map fun r => (piece :: r.1, r.2) := by
  rcases escapeChar_cases c with ⟨e, hc, he, hu⟩ | ⟨hcontrol, hc⟩ | ⟨hquote, hslash, hcontrol, hc⟩
  · rw [hc]
    exact ⟨.char c, StringPiece.denotes_char c, Written.readStringTail?_short he hu⟩
  · rw [hc]
    exact ⟨.unit c.toNat, StringPiece.denotes_unit hcontrol,
      Written.readStringTail?_unit hcontrol⟩
  · rw [hc]
    exact ⟨.char c, StringPiece.denotes_char c,
      Written.readStringTail?_char hquote hslash hcontrol⟩

theorem escapeChar_ne_nil (c : Char) : escapeChar c ≠ [] := by
  rcases escapeChar_cases c with ⟨e, hc, -⟩ | ⟨-, hc⟩ | ⟨-, -, -, hc⟩ <;> rw [hc] <;> simp

theorem readStringTail?_flatMap_escapeChar (chars rest : List Char) {fuel : Nat}
    (hfuel : (chars.flatMap escapeChar).length < fuel) :
    ∃ pieces, StringPiece.chars? pieces = some chars ∧
      Written.readStringTail? fuel (chars.flatMap escapeChar ++ '"' :: rest) =
        some (pieces, rest) := by
  induction chars generalizing fuel with
  | nil =>
    obtain ⟨fuel, rfl⟩ := Nat.exists_eq_add_one.mpr hfuel
    exact ⟨[], rfl, rfl⟩
  | cons c chars ih =>
    have hpos := List.length_pos_iff.mpr (escapeChar_ne_nil c)
    rw [List.flatMap_cons, List.length_append] at hfuel
    obtain ⟨fuel, rfl⟩ := Nat.exists_eq_add_one.mpr (Nat.zero_lt_of_lt hfuel)
    have hrest : (chars.flatMap escapeChar).length < fuel := by omega
    obtain ⟨pieces, hpieces, hread⟩ := ih hrest
    obtain ⟨piece, hpiece, hstep⟩ :=
      readStringTail?_escapeChar c (chars.flatMap escapeChar ++ '"' :: rest) fuel
    refine ⟨piece :: pieces, by rw [hpiece, hpieces]; rfl, ?_⟩
    rw [List.flatMap_cons, List.append_assoc, hstep, hread]
    rfl

/-- **A string reads back from its text**, whatever stands behind it. -/
theorem readString?_renderString (s : String) (rest : List Char) :
    ∃ pieces, StringPiece.text? pieces = some s ∧
      Written.readString? (renderString s ++ rest) = some (pieces, rest) := by
  have htext : renderString s ++ rest = '"' :: (s.toList.flatMap escapeChar ++ '"' :: rest) := by
    simp [renderString]
  have hfuel : (s.toList.flatMap escapeChar).length <
      (s.toList.flatMap escapeChar ++ '"' :: rest).length := by simp
  obtain ⟨pieces, hpieces, hread⟩ := readStringTail?_flatMap_escapeChar s.toList rest hfuel
  refine ⟨pieces, by rw [StringPiece.text?, hpieces, Option.map_some, String.ofList_toList], ?_⟩
  rw [htext]
  exact hread

theorem renderString_append_inj {s t : String} {r u : List Char}
    (h : renderString s ++ r = renderString t ++ u) : s = t ∧ r = u := by
  obtain ⟨ps, hs, hreads⟩ := readString?_renderString s r
  obtain ⟨pt, ht, hreadt⟩ := readString?_renderString t u
  rw [h, hreadt] at hreads
  obtain ⟨rfl, rfl⟩ := Prod.mk.inj (Option.some.inj hreads)
  exact ⟨Option.some.inj (hs.symm.trans ht), rfl⟩

/-! ### Numbers -/

/-- A text that does not go on with a character of numbers. -/
def EndsNumber (rest : List Char) : Prop :=
  ∀ c ∈ rest.head?, FloatLayout.isNumberChar c = false

theorem endsNumber_nil : EndsNumber [] := by
  rintro c ⟨⟩

theorem endsNumber_cons {c : Char} (hc : FloatLayout.isNumberChar c = false) (rest : List Char) :
    EndsNumber (c :: rest) := by
  rintro d ⟨⟩
  exact hc

theorem renderNumber_injective {m n : Number} (h : renderNumber m = renderNumber n) : m = n := by
  have hmixed : ∀ (k : Int) (x : FiniteDouble), intDigits k ≠ floatLayout.render x := by
    intro k x h
    have hread := readInt?_intDigits k
    rw [h, FloatLayout.readInt?_render rfl] at hread
    cases hread
  cases m with
  | int k =>
    cases n with
    | int l =>
      have hread := readInt?_intDigits k
      rw [show intDigits k = intDigits l from h, readInt?_intDigits] at hread
      rw [Option.some.inj hread]
    | float y => exact absurd h (hmixed k y)
  | float x =>
    cases n with
    | int l => exact absurd h.symm (hmixed l x)
    | float y =>
      have hread := FloatLayout.readDouble?_render floatLayout x
      rw [show floatLayout.render x = floatLayout.render y from h,
        FloatLayout.readDouble?_render] at hread
      rw [Binary64.finite.inj (Option.some.inj hread)]

theorem isNumberChar_of_mem_renderNumber (n : Number) :
    ∀ c ∈ renderNumber n, FloatLayout.isNumberChar c = true := by
  have hdigits : ∀ k, ∀ c ∈ natDigits k, FloatLayout.isNumberChar c = true := fun k =>
    List.all_eq_true.mp (FloatLayout.all_isNumberChar_of_isDigit (all_isDigit_natDigits k))
  cases n with
  | int k =>
    intro c hc
    rw [renderNumber, intDigits] at hc
    split at hc
    · rcases List.mem_cons.mp hc with rfl | hc
      · rfl
      · exact hdigits _ c hc
    · exact hdigits _ c hc
  | float x => exact List.all_eq_true.mp (FloatLayout.all_isNumberChar_render floatLayout x)

/-- The text of a number begins with a digit or a minus sign. -/
theorem head_renderNumber (n : Number) :
    ∃ c rest, renderNumber n = c :: rest ∧ (c.isDigit = true ∨ c = '-') := by
  cases n with
  | int k =>
    obtain ⟨c, cs, hcs⟩ := List.exists_cons_of_ne_nil (natDigits_ne_nil k.natAbs)
    rw [renderNumber, intDigits]
    split
    · exact ⟨'-', _, rfl, Or.inr rfl⟩
    · exact ⟨c, cs, hcs, Or.inl (isDigit_of_mem_natDigits (hcs ▸ List.mem_cons_self ..))⟩
  | float x =>
    -- behind the sign there is a digit in every layout
    rw [renderNumber, FloatLayout.render]
    generalize x.shortest floatLayout.ties = d
    obtain ⟨c, rest, hbody, hc⟩ :=
      floatLayout.beginsDigit_renderMagnitude d.coefficient d.exponent
    split
    · exact ⟨'-', _, rfl, Or.inr rfl⟩
    · exact ⟨c, rest, hbody, Or.inl hc⟩

theorem renderNumber_ne_nil (n : Number) : renderNumber n ≠ [] := by
  obtain ⟨c, rest, h, -⟩ := head_renderNumber n
  rw [h]
  exact List.cons_ne_nil _ _

theorem renderNumber_append_inj {m n : Number} {r s : List Char} (hr : EndsNumber r)
    (hs : EndsNumber s) (h : renderNumber m ++ r = renderNumber n ++ s) : m = n ∧ r = s := by
  have hm := takeWhile_append_of_head? (isNumberChar_of_mem_renderNumber m) hr
  have hn := takeWhile_append_of_head? (isNumberChar_of_mem_renderNumber n) hs
  rw [h, hn] at hm
  refine ⟨(renderNumber_injective hm).symm, ?_⟩
  rw [hm] at h
  exact List.append_cancel_left h

/-! ### Values -/

/-- The mark that tells what kind of value a text belongs to, from its first character:
the character itself, but one and the same for all that a number can begin with. -/
def kindMark (c : Char) : Char :=
  if FloatLayout.isNumberChar c then '0' else c

/-- The mark of a value. -/
def mark : Json → Char
  | null => 'n'
  | bool true => 't'
  | bool false => 'f'
  | num _ => '0'
  | str _ => '"'
  | arr _ => '['
  | obj _ => '{'

theorem kindMark_head (v : Json) : ∃ c rest, v.render = c :: rest ∧ kindMark c = v.mark := by
  cases v with
  | null => exact ⟨_, _, rfl, rfl⟩
  | bool b => cases b <;> exact ⟨_, _, rfl, rfl⟩
  | num n =>
    obtain ⟨c, rest, h⟩ := List.exists_cons_of_ne_nil (renderNumber_ne_nil n)
    have hc := isNumberChar_of_mem_renderNumber n c (by rw [h]; exact List.mem_cons_self ..)
    exact ⟨c, rest, by rw [render, h], if_pos hc⟩
  | str s => exact ⟨_, _, rfl, rfl⟩
  | arr items => exact ⟨_, _, by rw [render]; rfl, rfl⟩
  | obj fields => exact ⟨_, _, by rw [render]; rfl, rfl⟩

/-- The values are made by one constructor; a boolean is a constructor of its own. -/
inductive SameKind : Json → Json → Prop where
  | null : SameKind null null
  | bool (b : Bool) : SameKind (bool b) (bool b)
  | num (m n : Number) : SameKind (num m) (num n)
  | str (s t : String) : SameKind (str s) (str t)
  | arr (xs ys : List Json) : SameKind (arr xs) (arr ys)
  | obj (xs ys : List (String × Json)) : SameKind (obj xs) (obj ys)

theorem sameKind_of_mark_eq {a b : Json} (h : a.mark = b.mark) : SameKind a b := by
  rcases a with _ | (_ | _) | _ | _ | _ | _ <;> rcases b with _ | (_ | _) | _ | _ | _ | _ <;>
    first
    | constructor
    | cases h

/-- Texts that agree are of values of one kind. -/
theorem sameKind_of_render_append {a b : Json} {r s : List Char}
    (h : a.render ++ r = b.render ++ s) : SameKind a b := by
  obtain ⟨c, rest, ha, hc⟩ := kindMark_head a
  obtain ⟨d, others, hb, hd⟩ := kindMark_head b
  rw [ha, hb] at h
  obtain rfl := (List.cons.inj h).1
  exact sameKind_of_mark_eq (hc.symm.trans hd)

/-! ### Items and fields

Behind the first item of an array the text goes on as it would behind a comma, so it
is enough to look at items and fields that a comma stands in front of. -/

theorem endsNumber_renderMoreItems (xs : List Json) (rest : List Char) :
    EndsNumber (renderMoreItems xs ++ ']' :: rest) := by
  cases xs with
  | nil => exact endsNumber_cons rfl rest
  | cons x xs => exact endsNumber_cons rfl _

theorem endsNumber_renderMoreFields (xs : List (String × Json)) (rest : List Char) :
    EndsNumber (renderMoreFields xs ++ '}' :: rest) := by
  cases xs with
  | nil => exact endsNumber_cons rfl rest
  | cons x xs => exact endsNumber_cons rfl _

/-- No text of a value begins with a closing bracket. -/
theorem renderItems_cons_append_ne (x : Json) (xs : List Json) (r s : List Char) :
    renderItems (x :: xs) ++ r ≠ ']' :: s := by
  obtain ⟨c, rest, hx, hc⟩ := kindMark_head x
  rw [renderItems, hx]
  intro h
  obtain rfl : c = ']' := (List.cons.inj h).1
  cases x with
  | bool b => cases b <;> cases hc
  | _ => cases hc

theorem renderFields_cons_append_ne (x : String × Json) (xs : List (String × Json))
    (r s : List Char) : renderFields (x :: xs) ++ r ≠ '}' :: s := by
  intro h
  cases (List.cons.inj h).1

mutual

/-- **A text tells its value and what stands behind it**, as long as that does not go
on with a number. -/
theorem render_append_inj : ∀ (a b : Json) {r s : List Char}, EndsNumber r → EndsNumber s →
    a.render ++ r = b.render ++ s → a = b ∧ r = s
  | a, b, r, s, hr, hs, h =>
    match a, b, sameKind_of_render_append h, h with
    | _, _, .null, h => ⟨rfl, List.append_cancel_left h⟩
    | _, _, .bool b, h => ⟨rfl, List.append_cancel_left h⟩
    | _, _, .num m n, h => by
      obtain ⟨rfl, rfl⟩ := renderNumber_append_inj hr hs h
      exact ⟨rfl, rfl⟩
    | _, _, .str s t, h => by
      obtain ⟨rfl, rfl⟩ := renderString_append_inj h
      exact ⟨rfl, rfl⟩
    | .arr xs, .arr ys, .arr _ _, h => by
      have h : renderItems xs ++ ']' :: r = renderItems ys ++ ']' :: s := by
        simpa [render] using h
      match xs, ys, h with
      | [], [], h => exact ⟨rfl, (List.cons.inj h).2⟩
      | [], y :: ys, h => exact absurd h.symm (renderItems_cons_append_ne y ys _ _)
      | x :: xs, [], h => exact absurd h (renderItems_cons_append_ne x xs _ _)
      | x :: xs, y :: ys, h =>
        obtain ⟨hxs, rfl⟩ := renderMoreItems_append_inj (x :: xs) (y :: ys) (congrArg (',' :: ·) h)
        exact ⟨congrArg arr hxs, rfl⟩
    | .obj xs, .obj ys, .obj _ _, h => by
      have h : renderFields xs ++ '}' :: r = renderFields ys ++ '}' :: s := by
        simpa [render] using h
      match xs, ys, h with
      | [], [], h => exact ⟨rfl, (List.cons.inj h).2⟩
      | [], y :: ys, h => exact absurd h.symm (renderFields_cons_append_ne y ys _ _)
      | x :: xs, [], h => exact absurd h (renderFields_cons_append_ne x xs _ _)
      | x :: xs, y :: ys, h =>
        obtain ⟨hxs, rfl⟩ := renderMoreFields_append_inj (x :: xs) (y :: ys) (congrArg (',' :: ·) h)
        exact ⟨congrArg obj hxs, rfl⟩

theorem renderMoreItems_append_inj : ∀ (xs ys : List Json) {r s : List Char},
    renderMoreItems xs ++ ']' :: r = renderMoreItems ys ++ ']' :: s → xs = ys ∧ r = s
  | [], [], r, s, h => ⟨rfl, (List.cons.inj h).2⟩
  | [], y :: ys, r, s, h => by cases (List.cons.inj h).1
  | x :: xs, [], r, s, h => by cases (List.cons.inj h).1
  | x :: xs, y :: ys, r, s, h => by
    simp only [renderMoreItems, List.cons_append, List.append_assoc, List.cons.injEq,
      true_and] at h
    obtain ⟨rfl, hmore⟩ := render_append_inj x y (endsNumber_renderMoreItems xs r)
      (endsNumber_renderMoreItems ys s) h
    obtain ⟨rfl, rfl⟩ := renderMoreItems_append_inj xs ys hmore
    exact ⟨rfl, rfl⟩

theorem renderMoreFields_append_inj : ∀ (xs ys : List (String × Json)) {r s : List Char},
    renderMoreFields xs ++ '}' :: r = renderMoreFields ys ++ '}' :: s → xs = ys ∧ r = s
  | [], [], r, s, h => ⟨rfl, (List.cons.inj h).2⟩
  | [], y :: ys, r, s, h => by cases (List.cons.inj h).1
  | x :: xs, [], r, s, h => by cases (List.cons.inj h).1
  | (k, x) :: xs, (l, y) :: ys, r, s, h => by
    simp only [renderMoreFields, List.cons_append, List.append_assoc, List.cons.injEq,
      true_and] at h
    obtain ⟨rfl, hvalue⟩ := renderString_append_inj h
    obtain ⟨rfl, hmore⟩ := render_append_inj x y (endsNumber_renderMoreFields xs r)
      (endsNumber_renderMoreFields ys s) (List.cons.inj hvalue).2
    obtain ⟨rfl, rfl⟩ := renderMoreFields_append_inj xs ys hmore
    exact ⟨rfl, rfl⟩

end

/-- **Different values have different texts.** Numbers of different kinds are different
values, and so are the two zeros. -/
theorem serialize_injective {a b : Json} (h : a.serialize = b.serialize) : a = b := by
  have hrender : a.render = b.render := String.ofList_injective h
  exact (render_append_inj a b endsNumber_nil endsNumber_nil (congrArg (· ++ []) hrender)).1

end Json

end TableQuery
