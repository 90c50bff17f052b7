import TableQuery.Execution.Shape
import TableQuery.Proofs.Fetching.Requests
import TableQuery.Proofs.Json.Unambiguous
import TableQuery.Proofs.Value.FirstOccurrences
import TableQuery.Stage.Builtin

/-!
# Removing duplicates

Repeated values are found by their texts. As a text denotes one value only, no two
different values are taken for one, and what is left are the first occurrences of the
values themselves (`TableQuery.Json.distinct_eq_firstOccurrences`).

Numbers are the same value only if they are of one kind, and doubles only if they have
one sign besides one magnitude: `1` and `1.0` are different values here, and so are the
two zeros (`TableQuery.Number.same_iff`).
-/

namespace TableQuery

/-- The numbers are of one kind and have one value, and doubles have one sign. -/
def Number.Same : Number → Number → Prop
  | int m, int n => m = n
  | float x, float y => x.negative = y.negative ∧ x.rank = y.rank
  | int _, float _ | float _, int _ => False

theorem Number.same_iff {m n : Number} : m.Same n ↔ m = n := by
  cases m with
  | int m =>
    cases n with
    | int n => simp [Same]
    | float y => simp [Same]
  | float x =>
    cases n with
    | int n => simp [Same]
    | float y =>
      obtain ⟨negative, rank, _⟩ := x
      obtain ⟨negative', rank', _⟩ := y
      simp [Same]

namespace Json

theorem serialize_inj {a b : Json} : a.serialize = b.serialize ↔ a = b :=
  ⟨serialize_injective, congrArg serialize⟩

theorem distinct_eq_firstOccurrences (values : List Json) :
    distinct values = firstOccurrences (· == ·) values :=
  firstBy_eq_firstOccurrences (fun x y => by rw [beq_iff_eq, serialize_inj]) values

theorem mem_distinct {values : List Json} {x : Json} : x ∈ distinct values ↔ x ∈ values := by
  refine ⟨mem_of_mem_firstBy, fun h => ?_⟩
  obtain ⟨y, hy, htext⟩ := exists_mem_firstBy serialize h List.not_mem_nil
  exact serialize_injective htext ▸ hy

theorem nodup_distinct (values : List Json) : (distinct values).Nodup :=
  (pairwise_firstBy values).imp fun htexts heq => htexts (congrArg serialize heq)

theorem distinct_distinct_append (xs ys : List Json) :
    distinct (distinct xs ++ ys) = distinct (xs ++ ys) :=
  firstBy_firstBy_append xs ys

theorem distinct_distinct (values : List Json) : distinct (distinct values) = distinct values := by
  have h := distinct_distinct_append values []
  rwa [List.append_nil, List.append_nil] at h

/-- **Exactly the repeated values are removed.** A text denotes one value, with the kind of a
number and the sign of a double; what is left of a list by the aggregation and by the stage are
the first occurrences of its values, and removing duplicates twice, or of a first part in
advance, changes nothing. -/
theorem distinct_exact :
    (∀ a b : Json, a.serialize = b.serialize ↔ a = b) ∧
    (∀ m n : Number, (num m).serialize = (num n).serialize ↔ m.Same n) ∧
    ∀ values : List Json,
      distinct values = firstOccurrences (· == ·) values ∧
      (distinct values).Sublist values ∧ (∀ x, x ∈ distinct values ↔ x ∈ values) ∧
      (distinct values).Nodup ∧ distinct (distinct values) = distinct values ∧
      (∀ more, distinct (values ++ more) = distinct (distinct values ++ more)) ∧
      aggregate values (some .unique) = .arr (firstOccurrences (· == ·) values) ∧
      ∀ (scope : StageScope) (args : Arguments),
        Builtin.distinct.run scope args (.arr values) =
          .done (.arr (firstOccurrences (· == ·) values)) := by
  refine ⟨fun _ _ => serialize_inj, fun m n => ?_, fun values => ?_⟩
  · rw [serialize_inj, num.injEq, Number.same_iff]
  have hfirst := distinct_eq_firstOccurrences values
  refine ⟨hfirst, sublist_firstBy values, fun _ => mem_distinct, nodup_distinct values,
    distinct_distinct values, fun more => (distinct_distinct_append values more).symm,
    by rw [← hfirst]; rfl, fun scope args => ?_⟩
  rw [← hfirst]
  rfl

/-- A number that is given as an integer and as a double, and repeated. -/
example : distinct [.ofNat 1, .num (.float ⟨false, 1023 * 2 ^ 52, by decide⟩), .ofNat 1, .null] =
    [.ofNat 1, .num (.float ⟨false, 1023 * 2 ^ 52, by decide⟩), .null] := by
  decide +kernel

end Json

end TableQuery
