import TableQuery.Proofs.Grammar.Segments
import TableQuery.Proofs.Grammar.Statements

/-!
# Texts of one part

The text of a statement without a name and without stages is a pair of square brackets with
something in it, in front of it and behind it. If what is in the brackets is balanced,
nothing of it is at the top level: no cut falls into it, and the whole text is read as one
part (`TableQuery.Grammar.readStatements_bracketed`).
-/

namespace TableQuery

namespace Grammar

open Text

/-- Square brackets around a text, behind another text and in front of a third. -/
def bracketed (front inside behind : List Char) : List Char :=
  front ++ '[' :: (inside ++ ']' :: behind)

/-- The character neither begins a part nor separates statements or stages. -/
def Joins (c : Char) : Prop :=
  c ≠ '[' ∧ c ≠ ';' ∧ c ≠ '|'

instance (c : Char) : Decidable (Joins c) :=
  inferInstanceAs (Decidable (_ ∧ _ ∧ _))

theorem joins_of_isNameChar {c : Char} (h : isNameChar c = true) : Joins c :=
  ⟨ne_of_isNameChar h rfl, ne_of_isNameChar h rfl, ne_of_isNameChar h rfl⟩

variable {front inside behind : List Char}

/-- The scan passes over what is in the brackets. -/
theorem top_bracketed {P : Char → Prop} (hfront : Nested P front) (hbracket : P '[')
    (hinside : Balanced inside) (hbehind : Nested P behind) :
    ∀ c ∈ Scan.top {} (bracketed front inside behind), P c := by
  have hstart := Scan.outside_start
  intro c hc
  rw [bracketed, Scan.top_append, hfront.run_eq hstart] at hc
  rcases List.mem_append.mp hc with hc | hc
  · exact (hfront.of_mem_top hstart hc).2
  · rcases List.mem_cons.mp hc with rfl | hc
    · exact hbracket
    · rw [hinside.top_group hstart (Or.inr rfl) (Or.inr rfl)] at hc
      exact (hbehind.of_mem_top hstart hc).2

theorem balanced_bracketed {P Q : Char → Prop} (hfront : Nested P front)
    (hinside : Balanced inside) (hbehind : Nested Q behind) :
    Balanced (bracketed front inside behind) := by
  have hdeep : Scan.Outside { depth := 1 } := ⟨rfl, rfl⟩
  have hgroup : Balanced ('[' :: (inside ++ ']' :: behind)) := by
    rw [Balanced, Scan.run_cons, Scan.run_append,
      show Scan.step {} '[' = { depth := 1 } from rfl, hinside.run_eq hdeep]
    exact hbehind.balanced
  exact hfront.balanced.append hgroup

/-- No separator is seen from outside the brackets. -/
theorem splitTop_bracketed {sep : Char} (hfront : Nested (· ≠ sep) front) (hsep : '[' ≠ sep)
    (hinside : Balanced inside) (hbehind : Nested (· ≠ sep) behind) :
    splitTop sep (bracketed front inside behind) = (bracketed front inside behind, []) := by
  have hpass := splitTopFrom_append [] (top_bracketed hfront hsep hinside hbehind)
  rw [List.append_nil] at hpass
  rw [splitTop, hpass]
  simp [splitTopFrom, Pieces.growAll]

theorem solid_bracketed (inside : List Char) (hfront : front = [] ∨ StartsSolid front)
    (hbehind : behind = [] ∨ EndsSolid behind) :
    StartsSolid (bracketed front inside behind) ∧ EndsSolid (bracketed front inside behind) := by
  constructor
  · rcases hfront with rfl | hstart
    · exact ⟨'[', inside ++ ']' :: behind, rfl, rfl⟩
    · exact hstart.append _
  · rcases hbehind with rfl | hend
    · exact ⟨']', front ++ '[' :: inside, by simp [bracketed], rfl⟩
    · rw [show bracketed front inside behind = front ++ '[' :: inside ++ [']'] ++ behind by
        simp [bracketed]]
      exact hend.append _

/-- A part says nothing of a name, a key or stages. -/
theorem eq_of_readPart {catalog : Catalog} {outer : Option Aggregation} {part : List Char}
    {s : Statement} (h : readPart catalog outer part = .ok s) :
    s = { expression := s.expression, aggregation := s.aggregation
          projection := s.projection } := by
  rw [readPart] at h
  split at h
  · cases h
  obtain ⟨⟨aggregation, inner⟩, -, h⟩ := except_bind_eq_ok.mp h
  obtain ⟨⟨within, rest⟩, -, h⟩ := except_bind_eq_ok.mp h
  obtain ⟨projection, -, h⟩ := except_bind_eq_ok.mp h
  obtain ⟨e, -, h⟩ := except_bind_eq_ok.mp h
  obtain rfl := Except.ok.inj h
  rfl

/-- **A text that is one part** is read as a statement without a name and without stages: the
aggregation in front is read first, and then the brackets and what is behind them. -/
theorem readStatements_bracketed {catalog : Catalog} (hfront : Nested Joins front)
    (hstart : front = [] ∨ StartsSolid front) (hdollar : front.head? ≠ some '$')
    (hinside : Balanced inside) (hbehind : Nested Joins behind)
    (hend : behind = [] ∨ EndsSolid behind) :
    readStatements catalog (bracketed front inside behind) =
      (do
        let outer ← readAggregation (trim front)
        return [← readPart catalog outer (bracketed [] inside behind)]) := by
  have hsolid := solid_bracketed inside hstart hend
  have htrim := trim_of_solid hsolid.1 hsolid.2
  have hpart := solid_bracketed inside (Or.inl rfl) hend
  have htrimPart := trim_of_solid hpart.1 hpart.2
  have hsegments : segments (bracketed front inside behind) = [bracketed front inside behind] := by
    rw [segments, splitTop_bracketed (hfront.mono fun _ h => h.2.1) (by decide) hinside
      (hbehind.mono fun _ h => h.2.1), Pieces.toList, List.map_singleton, htrim]
    obtain ⟨c, rest, htext, -⟩ := hsolid.1
    rw [htext]
    rfl
  have hbinding : readBinding (bracketed front inside behind) =
      .ok (none, bracketed front inside behind) := by
    cases front with
    | nil => rfl
    | cons c rest =>
      unfold readBinding
      split
      · rename_i heq
        exact absurd (congrArg some (List.cons.inj heq).1) hdollar
      · rfl
  have huncut : splitTop '|' (bracketed front inside behind) = _ :=
    splitTop_bracketed (hfront.mono fun _ h => h.2.2) (by decide) hinside
      (hbehind.mono fun _ h => h.2.2)
  have hparts : splitParts (bracketed front inside behind) =
      (front, [bracketed [] inside behind]) :=
    splitParts_group (hfront.mono fun _ h => h.1) hinside (hbehind.mono fun _ h => h.1)
  rw [readStatements_of_isBalanced (isBalanced_iff.mpr (balanced_bracketed hfront hinside hbehind)),
    hsegments, List.mapM_cons, List.mapM_nil, readSegment]
  simp only [hbinding, ok_bind, huncut, htrim, List.mapM_nil, pure_bind, hparts, htrimPart]
  cases readAggregation (trim front) with
  | error e => rfl
  | ok outer =>
    cases hpart : readPart catalog outer (bracketed [] inside behind) with
    | error e => simp only [ok_bind, hpart]; rfl
    | ok s =>
      rw [eq_of_readPart hpart] at hpart
      simp only [ok_bind, hpart]
      rfl

end Grammar

end TableQuery
