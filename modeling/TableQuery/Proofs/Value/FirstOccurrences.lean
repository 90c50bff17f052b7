import Mathlib.Data.List.Induction
import TableQuery.Value.Key

/-!
# First occurrences

Many parts of the library keep the first of the values that a key does not tell apart.
They do so in one pass that remembers the keys it has seen (`TableQuery.Json.firstBy`).
What comes out is told here without a pass: it is the values that nothing in front of
them repeats (`TableQuery.firstOccurrences`).

The two are compared from the end of the list, where the last value is kept or left out
by the keys of all that stand in front of it (`TableQuery.Json.firstBy_concat`,
`TableQuery.firstOccurrences_concat`). For the pass this needs that only the set of
seen keys counts (`TableQuery.Json.firstBy_congr_seen`).
-/

namespace TableQuery

section Occurrences

variable {α : Type} (same : α → α → Bool)

/-- The values of a list that are the same as none in front of them. -/
def firstOccurrences (xs : List α) : List α :=
  (xs.zipIdx.filter fun e : α × Nat => !(xs.take e.2).any fun y => same y e.1).map Prod.fst

theorem firstOccurrences_concat (xs : List α) (x : α) :
    firstOccurrences same (xs ++ [x]) =
      firstOccurrences same xs ++ if xs.any fun y => same y x then [] else [x] := by
  have hfront : xs.zipIdx.filter (fun e => !((xs ++ [x]).take e.2).any fun y => same y e.1) =
      xs.zipIdx.filter fun e => !(xs.take e.2).any fun y => same y e.1 := by
    refine List.filter_congr fun e he => ?_
    have hlt := (List.mem_zipIdx he).2.1
    rw [List.take_append_of_le_length (by omega)]
  rw [firstOccurrences, List.zipIdx_append, List.filter_append, List.map_append, hfront,
    ← firstOccurrences]
  refine congrArg _ ?_
  by_cases h : xs.any fun y => same y x
  · simp [h]
  · simp [h]

end Occurrences

namespace Json

variable {α κ : Type} [BEq κ] {keyOf : α → κ} {seen : List κ}

/-! ### What is kept -/

theorem mem_of_mem_firstBy {xs : List α} {x : α} (h : x ∈ firstBy keyOf seen xs) : x ∈ xs := by
  induction xs generalizing seen with
  | nil => exact absurd h List.not_mem_nil
  | cons y ys ih =>
    rw [firstBy] at h
    split at h
    · exact List.mem_cons_of_mem _ (ih h)
    · rcases List.mem_cons.mp h with rfl | h
      · exact List.mem_cons_self ..
      · exact List.mem_cons_of_mem _ (ih h)

variable [LawfulBEq κ]

/-- What is left out has the key of something that is kept, or one that was seen before. -/
theorem exists_mem_firstBy (keyOf : α → κ) {seen : List κ} {xs : List α}
    {x : α} (h : x ∈ xs) (hseen : keyOf x ∉ seen) :
    ∃ y ∈ firstBy keyOf seen xs, keyOf y = keyOf x := by
  induction xs generalizing seen with
  | nil => exact absurd h List.not_mem_nil
  | cons y ys ih =>
    rw [firstBy]
    by_cases hy : keyOf y ∈ seen
    · rw [if_pos (List.contains_iff_mem.mpr hy)]
      rcases List.mem_cons.mp h with rfl | h
      · exact absurd hy hseen
      · exact ih h hseen
    · rw [if_neg (mt List.contains_iff_mem.mp hy)]
      by_cases hxy : keyOf x = keyOf y
      · exact ⟨y, List.mem_cons_self .., hxy.symm⟩
      · have hx : x ∈ ys := (List.mem_cons.mp h).resolve_left fun heq => hxy (congrArg keyOf heq)
        have hseen' : keyOf x ∉ keyOf y :: seen := by simp [hxy, hseen]
        obtain ⟨z, hz, hkey⟩ := ih hx hseen'
        exact ⟨z, List.mem_cons_of_mem _ hz, hkey⟩

theorem firstBy_cons_of_mem {x : α} (h : keyOf x ∈ seen) (xs : List α) :
    firstBy keyOf seen (x :: xs) = firstBy keyOf seen xs := by
  rw [firstBy, if_pos (List.contains_iff_mem.mpr h)]

theorem firstBy_cons_of_notMem {x : α} (h : keyOf x ∉ seen) (xs : List α) :
    firstBy keyOf seen (x :: xs) = x :: firstBy keyOf (keyOf x :: seen) xs := by
  rw [firstBy, if_neg (mt List.contains_iff_mem.mp h)]

theorem sublist_firstBy (xs : List α) : (firstBy keyOf seen xs).Sublist xs := by
  induction xs generalizing seen with
  | nil => exact .slnil
  | cons x xs ih =>
    by_cases hx : keyOf x ∈ seen
    · rw [firstBy_cons_of_mem hx]
      exact ih.cons x
    · rw [firstBy_cons_of_notMem hx]
      exact ih.cons_cons x

theorem key_notMem_of_mem_firstBy {xs : List α} {x : α} (h : x ∈ firstBy keyOf seen xs) :
    keyOf x ∉ seen := by
  induction xs generalizing seen with
  | nil => exact absurd h List.not_mem_nil
  | cons y ys ih =>
    by_cases hy : keyOf y ∈ seen
    · rw [firstBy_cons_of_mem hy] at h
      exact ih h
    · rw [firstBy_cons_of_notMem hy] at h
      rcases List.mem_cons.mp h with rfl | h
      · exact hy
      · exact fun hx => ih h (List.mem_cons_of_mem _ hx)

/-- **No key is kept twice.** -/
theorem pairwise_firstBy (xs : List α) :
    (firstBy keyOf seen xs).Pairwise fun x y => keyOf x ≠ keyOf y := by
  induction xs generalizing seen with
  | nil => exact .nil
  | cons x xs ih =>
    by_cases hx : keyOf x ∈ seen
    · rw [firstBy_cons_of_mem hx]
      exact ih
    · rw [firstBy_cons_of_notMem hx]
      refine List.pairwise_cons.mpr ⟨fun y hy heq => ?_, ih⟩
      exact key_notMem_of_mem_firstBy hy (heq ▸ List.mem_cons_self ..)

/-! ### The order of the pass -/

/-- Only the set of the seen keys counts. -/
theorem firstBy_congr_seen {seen' : List κ} (h : ∀ k, k ∈ seen ↔ k ∈ seen') (xs : List α) :
    firstBy keyOf seen xs = firstBy keyOf seen' xs := by
  induction xs generalizing seen seen' with
  | nil => rfl
  | cons x xs ih =>
    by_cases hx : keyOf x ∈ seen
    · rw [firstBy_cons_of_mem hx, firstBy_cons_of_mem ((h _).mp hx), ih h]
    · rw [firstBy_cons_of_notMem hx, firstBy_cons_of_notMem (mt (h _).mpr hx)]
      exact congrArg (x :: ·) (ih fun k => by simp [h])

/-- A pass over two lists goes over the second with the keys of the first. -/
theorem firstBy_append (xs ys : List α) :
    firstBy keyOf seen (xs ++ ys) =
      firstBy keyOf seen xs ++ firstBy keyOf (xs.map keyOf ++ seen) ys := by
  induction xs generalizing seen with
  | nil => rfl
  | cons x xs ih =>
    by_cases hx : keyOf x ∈ seen
    · rw [List.cons_append, firstBy_cons_of_mem hx, firstBy_cons_of_mem hx, ih]
      refine congrArg _ (firstBy_congr_seen (fun k => ?_) ys)
      simp only [List.map_cons, List.mem_append, List.mem_cons]
      constructor
      · exact fun hk => hk.imp_left .inr
      · rintro ((rfl | hk) | hk)
        · exact .inr hx
        · exact .inl hk
        · exact .inr hk
    · rw [List.cons_append, firstBy_cons_of_notMem hx, firstBy_cons_of_notMem hx, ih,
        List.cons_append]
      refine congrArg (fun rest => x :: (_ ++ rest)) (firstBy_congr_seen (fun k => ?_) ys)
      simp only [List.map_cons, List.mem_append, List.mem_cons]
      exact or_left_comm.trans or_assoc.symm

theorem firstBy_concat (xs : List α) (x : α) :
    firstBy keyOf [] (xs ++ [x]) =
      firstBy keyOf [] xs ++ if keyOf x ∈ xs.map keyOf then [] else [x] := by
  rw [firstBy_append, List.append_nil]
  by_cases hx : keyOf x ∈ xs.map keyOf
  · rw [if_pos hx, firstBy_cons_of_mem hx, firstBy]
  · rw [if_neg hx, firstBy_cons_of_notMem hx, firstBy]

/-- **What is left out in front** makes no difference to what follows. -/
theorem firstBy_firstBy_append (xs ys : List α) :
    firstBy keyOf seen (firstBy keyOf seen xs ++ ys) = firstBy keyOf seen (xs ++ ys) := by
  induction xs generalizing seen with
  | nil => rfl
  | cons x xs ih =>
    by_cases hx : keyOf x ∈ seen
    · rw [firstBy_cons_of_mem hx, List.cons_append, firstBy_cons_of_mem hx, ih]
    · rw [firstBy_cons_of_notMem hx, List.cons_append, List.cons_append,
        firstBy_cons_of_notMem hx, firstBy_cons_of_notMem hx, ih]

/-- **A pass keeps the first occurrences**, for every relation that its keys stand for. -/
theorem firstBy_eq_firstOccurrences {same : α → α → Bool}
    (h : ∀ x y, same x y = true ↔ keyOf x = keyOf y) (xs : List α) :
    firstBy keyOf [] xs = firstOccurrences same xs := by
  induction xs using List.reverseRecOn with
  | nil => rfl
  | append_singleton xs x ih =>
    have hiff : keyOf x ∈ xs.map keyOf ↔ (xs.any fun y => same y x) = true := by
      simp only [List.mem_map, List.any_eq_true, h]
    rw [firstBy_concat, firstOccurrences_concat, ih]
    simp only [hiff]

/-! ### Loose equality -/

theorem looseEq_iff {a b : Json} : a.looseEq b = true ↔ a.key = b.key :=
  beq_iff_eq

theorem looseEq_eq_false_iff {a b : Json} : a.looseEq b = false ↔ a.key ≠ b.key :=
  beq_eq_false_iff_ne

theorem firstBy_key (values : List Json) :
    firstBy key [] values = firstOccurrences looseEq values := by
  have hsame : ∀ a b : Json, a.looseEq b = true ↔ a.key = b.key := fun _ _ => looseEq_iff
  exact firstBy_eq_firstOccurrences hsame values

end Json

end TableQuery
