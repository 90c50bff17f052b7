import TableQuery.Value.Key

/-!
# The order of values

The order that results are sorted in. Null comes first; numbers go by the doubles nearest to them,
strings and booleans by their own order, and values of different kinds by their serialized texts.
-/

namespace TableQuery

namespace Json

/-- Compares two values for sorting. -/
def compareValues : Json → Json → Ordering
  | null, null => .eq
  | null, _ => .lt
  | _, null => .gt
  | num a, num b => (a.toBinary64.compare? b.toBinary64).getD .eq
  | str a, str b => compare a b
  | bool a, bool b => compare a b
  | a, b => compare a.serialize b.serialize

end Json

end TableQuery
