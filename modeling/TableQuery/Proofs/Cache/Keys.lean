import Mathlib.Data.List.Sort
import Mathlib.Data.String.Basic
import TableQuery.Cache.Key
import TableQuery.Proofs.Json.Unambiguous
import TableQuery.Proofs.Query.Records

/-!
# Which batches share a key

Two batches have one key exactly when they have the same statements and their callers
are allowed the same tables (`TableQuery.batchKey_eq_iff`). So a cache never hands the
result of one batch to another, and it does not run a batch again because its tables
were listed in another order or some of them twice.

The key is the text of a document. A text denotes one value
(`TableQuery.Json.serialize_injective`), a record stands for one statement
(`TableQuery.Statement.toJson_injective`), and two lists of tables are written alike
when they name the same tables (`TableQuery.sortedNames_eq_iff`).
-/

namespace TableQuery

/-! ### Lists of names -/

theorem pairwise_lt_eraseDups : ∀ {names : List String}, names.Pairwise (· ≤ ·) →
    names.eraseDups.Pairwise (· < ·)
  | [], _ => .nil
  | name :: names, h => by
    obtain ⟨hname, hnames⟩ := List.pairwise_cons.mp h
    rw [List.eraseDups_cons]
    refine .cons (fun other hother => ?_) (pairwise_lt_eraseDups (hnames.filter _))
    obtain ⟨hmem, hne⟩ := List.mem_filter.mp (List.mem_eraseDups.mp hother)
    exact lt_of_le_of_ne (hname other hmem) (Ne.symm (by simpa using hne))
termination_by names => names.length
decreasing_by exact Nat.lt_succ_of_le (List.length_filter_le ..)

theorem mem_sortedNames {name : String} {names : List String} :
    name ∈ sortedNames names ↔ name ∈ names := by
  rw [sortedNames, List.mem_eraseDups, List.mem_mergeSort]

theorem pairwise_lt_sortedNames (names : List String) :
    (sortedNames names).Pairwise (· < ·) := by
  refine pairwise_lt_eraseDups ?_
  have htrans (a b c : String) (hab : decide (a ≤ b)) (hbc : decide (b ≤ c)) :
      decide (a ≤ c) := by
    simp only [decide_eq_true_eq] at hab hbc ⊢
    exact hab.trans hbc
  have htotal (a b : String) : decide (a ≤ b) || decide (b ≤ a) := by
    simpa using le_total a b
  simpa using List.pairwise_mergeSort htrans htotal names

/-- The sorted list is the ascending one that names the same. -/
theorem sortedNames_eq {a b : List String} (hb : b.Pairwise (· < ·))
    (h : ∀ name, name ∈ a ↔ name ∈ b) : sortedNames a = b := by
  refine (pairwise_lt_sortedNames a).eq_of_mem_iff hb fun name => ?_
  rw [mem_sortedNames, h]

/-- **Lists are written alike when they name the same.** -/
theorem sortedNames_eq_iff {a b : List String} :
    sortedNames a = sortedNames b ↔ ∀ name, name ∈ a ↔ name ∈ b := by
  constructor
  · intro h name
    rw [← mem_sortedNames, h, mem_sortedNames]
  · intro h
    refine sortedNames_eq (pairwise_lt_sortedNames b) fun name => ?_
    rw [h, mem_sortedNames]

/-! ### Documents -/

/-- The callers are allowed the same tables: neither gives a list of them, or both lists
name the same. -/
def SameTables : Option (List String) → Option (List String) → Prop :=
  Option.Rel fun a b => ∀ table, table ∈ a ↔ table ∈ b

/-- A key has the tables in ascending order. -/
theorem batchKey_of_ascending (statements : List Statement) {allowed tables : List String}
    (htables : tables.Pairwise (· < ·)) (h : ∀ table, table ∈ allowed ↔ table ∈ tables) :
    batchKey statements (some allowed) =
      (Json.obj [("statements", .arr (statements.map Statement.toJson)),
        ("allowedTables", Json.ofStrings tables)]).serialize := by
  rw [batchKey, batchDocument, Json.orNull, sortedNames_eq htables h]

theorem ofStrings_injective {a b : List String} (h : Json.ofStrings a = Json.ofStrings b) :
    a = b := by
  have hread := Json.strings?_ofStrings a
  rw [h, Json.strings?_ofStrings] at hread
  exact (Option.some.inj hread).symm

theorem orNull_sortedNames_eq_iff {a b : Option (List String)} :
    Json.orNull (fun names => Json.ofStrings (sortedNames names)) a =
      Json.orNull (fun names => Json.ofStrings (sortedNames names)) b ↔ SameTables a b := by
  cases a with
  | none =>
    cases b with
    | none => simp [SameTables, Json.orNull]
    | some b => simp [SameTables, Json.orNull, Json.ofStrings]
  | some a =>
    cases b with
    | none => simp [SameTables, Json.orNull, Json.ofStrings]
    | some b =>
      rw [SameTables, Option.rel_some_some, ← sortedNames_eq_iff]
      exact ⟨ofStrings_injective, congrArg Json.ofStrings⟩

theorem eq_of_batchKey_eq {s₁ s₂ : List Statement} {a₁ a₂ : Option (List String)}
    (h : batchKey s₁ a₁ = batchKey s₂ a₂) : s₁ = s₂ ∧ SameTables a₁ a₂ := by
  have hdocument := Json.serialize_injective h
  simp only [batchDocument, Json.obj.injEq, List.cons.injEq, Prod.mk.injEq, Json.arr.injEq,
    true_and, and_true] at hdocument
  obtain ⟨hstatements, hallowed⟩ := hdocument
  exact ⟨Statement.toJson_injective.list_map hstatements, orNull_sortedNames_eq_iff.mp hallowed⟩

/-- **Batches have one key exactly when they are the same** – the same statements, for
callers who are allowed the same tables. Arguments are the same if they are equal with
the kinds of their numbers and the signs of their zeros. -/
theorem batchKey_eq_iff (s₁ s₂ : List Statement) (a₁ a₂ : Option (List String)) :
    batchKey s₁ a₁ = batchKey s₂ a₂ ↔ s₁ = s₂ ∧ SameTables a₁ a₂ := by
  refine ⟨eq_of_batchKey_eq, ?_⟩
  rintro ⟨rfl, hallowed⟩
  rw [batchKey, batchKey, batchDocument, batchDocument, orNull_sortedNames_eq_iff.mpr hallowed]

end TableQuery
