import TableQuery.Grammar.Statement
import TableQuery.Proofs.Fetching.Requests
import TableQuery.Proofs.Grammar.Nesting
import TableQuery.Proofs.Schema.Built

/-!
# Texts one behind the other

A semicolon at the top level separates statements, and nothing reaches over it: a text
with a semicolon and another text behind it is read as the one and then the other
(`TableQuery.parse_append_semicolon`).

What carries this is that a scan has nothing to remember behind a balanced text. No
bracket and no literal is open there, and a backslash that escapes has a literal around
it, so the scan is where it was at the beginning (`TableQuery.Grammar.isBalanced_iff`).
The semicolon is then met at the top level, whatever the text in front of it holds, and
the text behind it is cut as if it stood alone.
-/

namespace TableQuery

namespace Grammar

open Text

/-! ### Behind a balanced text -/

namespace Scan

/-- A backslash escapes inside of literals only. -/
def EscapesInside (s : Scan) : Prop :=
  s.escaped = true → s.quoted = true

theorem EscapesInside.step {s : Scan} (h : s.EscapesInside) (c : Char) :
    (s.step c).EscapesInside := by
  unfold Scan.step
  split_ifs <;> simp_all [EscapesInside]

theorem EscapesInside.run (text : List Char) : ∀ {s : Scan}, s.EscapesInside →
    (s.run text).EscapesInside := by
  induction text with
  | nil => exact id
  | cons c cs ih => exact fun h => ih (h.step c)

end Scan

/-- **Behind a balanced text** a scan is where it was in front of it. -/
theorem isBalanced_iff {text : List Char} : isBalanced text = true ↔ Scan.run {} text = {} := by
  have hescapes : (Scan.run {} text).EscapesInside := .run text (by simp [Scan.EscapesInside])
  rw [isBalanced]
  generalize Scan.run {} text = s at hescapes
  obtain ⟨depth, quoted, escaped, underflow⟩ := s
  cases quoted <;> cases escaped <;> simp_all [Scan.isBalanced, Scan.atTop, Scan.EscapesInside]

/-- What stands behind a balanced text and a semicolon is balanced by itself. -/
theorem isBalanced_append_semicolon {a : List Char} (ha : isBalanced a = true) (b : List Char) :
    isBalanced (a ++ ';' :: b) = isBalanced b := by
  rw [isBalanced, Scan.run_append, isBalanced_iff.mp ha, Scan.run_cons,
    Scan.step_plain Scan.outside_start rfl, isBalanced]

/-! ### Cutting -/

/-- A separator that is met at the top level adds the pieces behind it to those in front
of it. -/
theorem splitTopFrom_append_separator (sep : Char) (hsep : isPlain sep = true)
    (rest text : List Char) : ∀ {s : Scan}, s.run text = {} →
      splitTopFrom sep s (text ++ sep :: rest) =
        ((splitTopFrom sep s text).1,
          (splitTopFrom sep s text).2 ++ (splitTop sep rest).toList) := by
  induction text with
  | nil =>
    rintro s rfl
    have htop : (Scan.atTop {} && sep == sep) = true := by simp [Scan.atTop]
    have hcut : splitTopFrom sep {} (sep :: rest) = (splitTop sep rest).cut := by
      rw [splitTopFrom, if_pos htop, Scan.step_plain Scan.outside_start hsep, splitTop]
    rw [List.nil_append, hcut]
    rfl
  | cons c cs ih =>
    intro s hs
    rw [List.cons_append, splitTopFrom, splitTopFrom, ih hs]
    split <;> rfl

/-- The segments of a text that are not blank. -/
def segments (text : List Char) : List (List Char) :=
  ((splitTop ';' text).toList.map trim).filter fun s => !s.isEmpty

theorem segments_append_semicolon {a : List Char} (ha : isBalanced a = true) (b : List Char) :
    segments (a ++ ';' :: b) = segments a ++ segments b := by
  have hsplit := splitTopFrom_append_separator ';' rfl b a (isBalanced_iff.mp ha)
  have hpieces : (splitTop ';' (a ++ ';' :: b)).toList =
      (splitTop ';' a).toList ++ (splitTop ';' b).toList := by
    rw [splitTop, hsplit]
    rfl
  rw [segments, hpieces, List.map_append, List.filter_append]
  rfl

/-! ### Reading -/

variable {catalog : Catalog}

theorem readStatements_of_isBalanced {text : List Char} (h : isBalanced text = true) :
    readStatements catalog text =
      (do return (← (segments text).mapM (readSegment catalog)).flatten) := by
  rw [readStatements, h]
  rfl

theorem isBalanced_of_readStatements {text : List Char} {statements : List Statement}
    (h : readStatements catalog text = .ok statements) : isBalanced text = true := by
  by_contra hnot
  rw [readStatements, Bool.eq_false_iff.mpr hnot] at h
  cases h

/-- Balanced texts are read one behind the other. -/
theorem readStatements_append_semicolon {a b : List Char} (ha : isBalanced a = true)
    (hb : isBalanced b = true) :
    readStatements catalog (a ++ ';' :: b) =
      (do
        let front ← readStatements catalog a
        let rear ← readStatements catalog b
        return front ++ rear) := by
  have hab : isBalanced (a ++ ';' :: b) = true := by rw [isBalanced_append_semicolon ha, hb]
  rw [readStatements_of_isBalanced hab, readStatements_of_isBalanced ha,
    readStatements_of_isBalanced hb, segments_append_semicolon ha, List.mapM_append]
  simp only [bind_assoc, pure_bind, List.flatten_append]

end Grammar

/-- **Reading takes texts one behind the other.** Two texts that are read separate are read
as the statements of the one and then those of the other where a semicolon stands between
them. And what is read behind a balanced text and a semicolon falls into these two: both
texts are read by themselves. -/
theorem parse_append_semicolon (catalog : Catalog) (a b : String) :
    (∀ front rear, parse catalog a = .ok front → parse catalog b = .ok rear →
      parse catalog (a ++ ";" ++ b) = .ok (front ++ rear)) ∧
    (Grammar.isBalanced a.toList = true → ∀ statements,
      parse catalog (a ++ ";" ++ b) = .ok statements →
        ∃ front rear, parse catalog a = .ok front ∧ parse catalog b = .ok rear ∧
          statements = front ++ rear) := by
  have htext : (a ++ ";" ++ b).toList = a.toList ++ ';' :: b.toList := by simp
  simp only [parse, htext]
  constructor
  · intro front rear hfront hrear
    have ha := Grammar.isBalanced_of_readStatements hfront
    have hb := Grammar.isBalanced_of_readStatements hrear
    rw [Grammar.readStatements_append_semicolon ha hb, hfront, hrear]
    rfl
  · intro ha statements h
    have hab := Grammar.isBalanced_of_readStatements h
    have hb : Grammar.isBalanced b.toList = true := by
      rw [← Grammar.isBalanced_append_semicolon ha, hab]
    rw [Grammar.readStatements_append_semicolon ha hb] at h
    obtain ⟨front, hfront, h⟩ := except_bind_eq_ok.mp h
    obtain ⟨rear, hrear, h⟩ := except_bind_eq_ok.mp h
    exact ⟨front, rear, hfront, hrear, (Except.ok.inj h).symm⟩

/-- A title with a semicolon in it, and a segment behind one that is blank. -/
theorem parse_append_semicolon_titles :
    let a := "$found = [Where posts:title (\"a; b\")] | @limit(5); "
    let b := " ;[Where posts:id ($found -> ALL)] AS *"
    let found : Statement := {
      name := some "found"
      expression := .atom (.condition "posts" (some ["title"]) (.text "a; b" false .contains))
      stages := [⟨"limit", [⟨none, .num (.int 5)⟩]⟩] }
    let same : Statement := {
      expression := .atom (.condition "posts" (some ["id"]) (.variableRef "found" none .all))
      projection := .all }
    parse .blog a = .ok [found] ∧ parse .blog b = .ok [same] ∧
      parse .blog (a ++ ";" ++ b) = .ok [found, same] := by
  intro a b found same
  have ha : parse .blog a = .ok [found] := by decide +kernel
  have hb : parse .blog b = .ok [same] := by decide +kernel
  exact ⟨ha, hb, (parse_append_semicolon .blog a b).1 _ _ ha hb⟩

end TableQuery
