import Mathlib.Data.List.Perm.Basic
import TableQuery.Query.Expression

/-!
# The order of operands

Operands may be swapped, and a chain of one connective may be grouped in another way,
without a change to what an expression says (`TableQuery.Expression.Rearranged`). What
is read off an expression is the same after such a change if it is put together at each
connective by an operation that is commutative and associative
(`TableQuery.Expression.Rearranged.apply_eq`); a reading from left to right is so up to
a permutation (`TableQuery.Expression.Rearranged.perm_atoms`).
-/

namespace TableQuery

/-- The connectives of two operands. -/
inductive Connective where
  | and
  | or
deriving DecidableEq, Repr

namespace Connective

/-- Two expressions with the connective between them. -/
def join : Connective → Expression → Expression → Expression
  | and => .and
  | or => .or

/-- The connective on truth values. -/
def holds : Connective → Bool → Bool → Bool
  | and => Bool.and
  | or => Bool.or

theorem holds_comm (c : Connective) (a b : Bool) : c.holds a b = c.holds b a := by
  cases c
  · exact Bool.and_comm ..
  · exact Bool.or_comm ..

theorem holds_assoc (c : Connective) (a b d : Bool) :
    c.holds (c.holds a b) d = c.holds a (c.holds b d) := by
  cases c
  · exact Bool.and_assoc ..
  · exact Bool.or_assoc ..

end Connective

namespace Expression

/-- One expression comes from the other by swapping operands and by grouping chains of
one connective in another way, anywhere in it. -/
inductive Rearranged : Expression → Expression → Prop
  | refl (e : Expression) : Rearranged e e
  | symm {e f : Expression} : Rearranged e f → Rearranged f e
  | trans {e f g : Expression} : Rearranged e f → Rearranged f g → Rearranged e g
  | swap (c : Connective) (l r : Expression) : Rearranged (c.join l r) (c.join r l)
  | regroup (c : Connective) (e f g : Expression) :
      Rearranged (c.join (c.join e f) g) (c.join e (c.join f g))
  | join (c : Connective) {l l' r r' : Expression} :
      Rearranged l l' → Rearranged r r' → Rearranged (c.join l r) (c.join l' r')
  | not {e f : Expression} : Rearranged e f → Rearranged (.not e) (.not f)

variable {e f : Expression}

theorem atoms_join (c : Connective) (l r : Expression) :
    (c.join l r).atoms = l.atoms ++ r.atoms := by
  cases c <;> rfl

/-- **The atoms are the same**, in another order. -/
theorem Rearranged.perm_atoms (h : e.Rearranged f) : e.atoms.Perm f.atoms := by
  induction h with
  | refl e => exact .refl _
  | symm _ ih => exact ih.symm
  | trans _ _ ih ih' => exact ih.trans ih'
  | swap c l r =>
    rw [atoms_join, atoms_join]
    exact List.perm_append_comm
  | regroup c e f g => simp only [atoms_join, List.append_assoc, List.Perm.refl]
  | join c _ _ ih ih' =>
    rw [atoms_join, atoms_join]
    exact ih.append ih'
  | not _ ih => exact ih

/-- **A reading does not see the order of operands** if what it makes of two operands
does not depend on theirs, and neither on how a chain of them is grouped. -/
theorem Rearranged.apply_eq {β : Type} (h : e.Rearranged f) (read : Expression → β)
    (op : Connective → β → β → β) (hcomm : ∀ c a b, op c a b = op c b a)
    (hassoc : ∀ c a b d, op c (op c a b) d = op c a (op c b d))
    (hjoin : ∀ c l r, read (c.join l r) = op c (read l) (read r)) (neg : β → β)
    (hnot : ∀ e, read (.not e) = neg (read e)) : read e = read f := by
  induction h with
  | refl e => rfl
  | symm _ ih => exact ih.symm
  | trans _ _ ih ih' => exact ih.trans ih'
  | swap c l r => rw [hjoin, hjoin, hcomm]
  | regroup c e f g => simp only [hjoin, hassoc]
  | join c _ _ ih ih' => rw [hjoin, hjoin, ih, ih']
  | not _ ih => rw [hnot, hnot, ih]

/-! ### Truth -/

/-- The truth of an expression, from that of its atoms. -/
def truth (v : Atom → Bool) : Expression → Bool
  | and l r => l.truth v && r.truth v
  | or l r => l.truth v || r.truth v
  | not e => !e.truth v
  | atom a => v a

theorem Rearranged.truth_eq (h : e.Rearranged f) (v : Atom → Bool) : e.truth v = f.truth v :=
  h.apply_eq (truth v) Connective.holds Connective.holds_comm Connective.holds_assoc
    (fun c l r => by cases c <;> rfl) Bool.not fun _ => rfl

end Expression

end TableQuery
