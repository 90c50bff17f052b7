import TableQuery.Proofs.Grammar.Atoms
import TableQuery.Json.Writer

/-!
# Parts of a value

What stands somewhere inside a value is written somewhere inside its text
(`TableQuery.Json.Within.render`), so a text in which some string is not written is not
the text of a value that has the string in it. A string that is a name is written as the
name between quotes (`TableQuery.Json.render_str_of_isName`), as nothing in it is
escaped.
-/

namespace TableQuery

open Grammar

namespace Json

/-- The first value is the second, or stands somewhere inside it. -/
inductive Within (x : Json) : Json → Prop where
  | here : Within x x
  | item {y : Json} {items : List Json} : Within x y → y ∈ items → Within x (arr items)
  | field {y : Json} {name : String} {fields : List (String × Json)} :
      Within x y → (name, y) ∈ fields → Within x (obj fields)

/-! ### Where parts are written -/

theorem infix_renderMoreItems {x : Json} {items : List Json} (h : x ∈ items) :
    x.render <:+: renderMoreItems items := by
  induction items with
  | nil => cases h
  | cons y rest ih =>
    rw [renderMoreItems]
    rcases List.mem_cons.mp h with rfl | h
    · exact ⟨[','], renderMoreItems rest, rfl⟩
    · exact (ih h).trans (List.suffix_append _ _).isInfix

theorem infix_renderMoreFields {x : Json} {name : String} {fields : List (String × Json)}
    (h : (name, x) ∈ fields) : x.render <:+: renderMoreFields fields := by
  induction fields with
  | nil => cases h
  | cons field rest ih =>
    obtain ⟨k, y⟩ := field
    rw [renderMoreFields]
    rcases List.mem_cons.mp h with heq | h
    · obtain ⟨rfl, rfl⟩ := Prod.mk.inj heq
      exact ⟨',' :: (renderString name ++ [':']), renderMoreFields rest, by simp⟩
    · exact (ih h).trans (List.suffix_append _ _).isInfix

theorem infix_render_arr {x : Json} {items : List Json} (h : x ∈ items) :
    x.render <:+: (arr items).render := by
  have hitems : x.render <:+: renderItems items := by
    -- the first item has no comma in front
    cases items with
    | nil => cases h
    | cons y rest =>
      rw [renderItems]
      rcases List.mem_cons.mp h with rfl | h
      · exact (List.prefix_append _ _).isInfix
      · exact (infix_renderMoreItems h).trans (List.suffix_append _ _).isInfix
  exact hitems.trans ⟨['['], [']'], by rw [render]; rfl⟩

theorem infix_render_obj {x : Json} {name : String} {fields : List (String × Json)}
    (h : (name, x) ∈ fields) : x.render <:+: (obj fields).render := by
  have hfields : x.render <:+: renderFields fields := by
    cases fields with
    | nil => cases h
    | cons field rest =>
      obtain ⟨k, y⟩ := field
      rw [renderFields]
      rcases List.mem_cons.mp h with heq | h
      · obtain ⟨rfl, rfl⟩ := Prod.mk.inj heq
        exact ⟨renderString name ++ [':'], renderMoreFields rest, by simp⟩
      · exact (infix_renderMoreFields h).trans (List.suffix_append _ _).isInfix
  exact hfields.trans ⟨['\x7b'], ['\x7d'], by rw [render]; rfl⟩

/-- **The text of a part is part of the text.** -/
theorem Within.render {x y : Json} (h : x.Within y) : x.render <:+: y.render := by
  induction h with
  | here => exact List.infix_rfl
  | item _ hmem ih => exact ih.trans (infix_render_arr hmem)
  | field _ hmem ih => exact ih.trans (infix_render_obj hmem)

/-! ### Names -/

theorem escapeChar_of_isNameChar {c : Char} (h : Text.isNameChar c = true) :
    escapeChar c = [c] := by
  have hne : ∀ d, Text.isNameChar d = false → (c == d) = false := fun d hd =>
    beq_eq_false_iff_ne.mpr (Text.ne_of_isNameChar h hd)
  have hcontrol : ¬c.toNat < 0x20 := by
    rw [Text.isNameChar_iff] at h
    omega
  simp only [escapeChar, hne '"' rfl, hne '\\' rfl, hne '\x08' rfl, hne '\t' rfl, hne '\n' rfl,
    hne '\x0c' rfl, hne '\r' rfl, Bool.false_eq_true, if_false, if_neg hcontrol]

/-- A name is written as it is, between quotes. -/
theorem render_str_of_isName {name : String} (h : IsName name) :
    (str name).render = '"' :: name.toList ++ ['"'] := by
  have hbody : name.toList.flatMap escapeChar = name.toList := by
    rw [List.flatMap_congr fun c hc => escapeChar_of_isNameChar ((isName_iff.mp h).2 c hc)]
    exact List.flatMap_singleton' _
  rw [Json.render, renderString, hbody]

end Json

end TableQuery
